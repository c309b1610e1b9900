/-!
# Reserved words

The language has ten reserved words and two vocabularies, so every word has an English and a
Nepali spelling. `Keyword.ofSpelling?` forgets which of them was written; nothing behind the
scanner can tell two spellings of one word apart.
-/

namespace TwinScript

/-- A reserved word, whatever its spelling. -/
inductive Keyword where
  | ifWord
  | forWord
  | breakWord
  | continueWord
  | fnWord
  | returnWord
  | trueWord
  | falseWord
  | noneWord
  | printlnWord
  deriving DecidableEq, Inhabited

/-- The languages that a program may be written in. -/
inductive Vocabulary where
  | english
  | nepali
  deriving DecidableEq, Inhabited

namespace Keyword

/-- Every reserved word once. -/
def all : List Keyword :=
  [ifWord, forWord, breakWord, continueWord, fnWord, returnWord, trueWord, falseWord, noneWord,
   printlnWord]

/-- How a reserved word is written in each vocabulary. -/
def spelling : Vocabulary → Keyword → String
  | .english, ifWord => "if"
  | .english, forWord => "for"
  | .english, breakWord => "break"
  | .english, continueWord => "continue"
  | .english, fnWord => "fn"
  | .english, returnWord => "return"
  | .english, trueWord => "true"
  | .english, falseWord => "false"
  | .english, noneWord => "none"
  | .english, printlnWord => "println"
  | .nepali, ifWord => "yedi"
  | .nepali, forWord => "ghum"
  | .nepali, breakWord => "todh"
  | .nepali, continueWord => "xod"
  | .nepali, fnWord => "kaam"
  | .nepali, returnWord => "farkau"
  | .nepali, trueWord => "sahi"
  | .nepali, falseWord => "galat"
  | .nepali, noneWord => "khali"
  | .nepali, printlnWord => "dekhau"

/-- Further spellings that are still accepted. -/
def aliases : List (String × Keyword) :=
  [("dekhauln", printlnWord)]

/-- Whether `word` is an accepted spelling of the reserved word `k`. -/
def isSpelledBy (k : Keyword) (word : String) : Bool :=
  word == k.spelling .english || word == k.spelling .nepali || aliases.contains (word, k)

/-- The reserved word that `word` spells, if there is one. -/
def ofSpelling? (word : String) : Option Keyword :=
  all.find? (·.isSpelledBy word)

theorem mem_all (k : Keyword) : k ∈ all := by
  cases k <;> decide

/-- The name of a reserved word in messages: its English spelling. -/
def text (k : Keyword) : String :=
  k.spelling .english

end Keyword

end TwinScript
