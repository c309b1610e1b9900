/-!
# Operators and punctuation

The symbols of the language, how each is written, and reading one off the front of a text. The
longer of two symbols that begin alike is meant, which is why `Symbol.all` lists those of two
characters first.
-/

namespace TwinScript

/-- An operator or a punctuation mark. -/
inductive Symbol where
  | leftParen
  | rightParen
  | leftBrace
  | rightBrace
  | comma
  | semicolon
  | minus
  | plus
  | star
  | slash
  | percent
  | bang
  | bangEqual
  | equal
  | equalEqual
  | greater
  | greaterEqual
  | less
  | lessEqual
  | andAnd
  | orOr
  deriving DecidableEq, Inhabited

namespace Symbol

/-- The characters that a symbol is written with. -/
def chars : Symbol → List Char
  | leftParen => ['(']
  | rightParen => [')']
  | leftBrace => ['\x7b']
  | rightBrace => ['\x7d']
  | comma => [',']
  | semicolon => [';']
  | minus => ['-']
  | plus => ['+']
  | star => ['*']
  | slash => ['/']
  | percent => ['%']
  | bang => ['!']
  | bangEqual => ['!', '=']
  | equal => ['=']
  | equalEqual => ['=', '=']
  | greater => ['>']
  | greaterEqual => ['>', '=']
  | less => ['<']
  | lessEqual => ['<', '=']
  | andAnd => ['&', '&']
  | orOr => ['|', '|']

/-- The text of a symbol. -/
def text (s : Symbol) : String :=
  String.ofList s.chars

/-- Every symbol once, the longer ones first. -/
def all : List Symbol :=
  [bangEqual, equalEqual, greaterEqual, lessEqual, andAnd, orOr, leftParen, rightParen, leftBrace,
   rightBrace, comma, semicolon, minus, plus, star, slash, percent, bang, equal, greater, less]

/-- The longest symbol that opens the text. -/
def opening? (text : List Char) : Option Symbol :=
  all.find? (·.chars.isPrefixOf text)

theorem mem_all (s : Symbol) : s ∈ all := by
  cases s <;> decide

theorem length_chars_pos (s : Symbol) : 0 < s.chars.length := by
  cases s <;> simp [chars]

end Symbol

end TwinScript
