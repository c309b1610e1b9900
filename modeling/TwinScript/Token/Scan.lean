import TwinScript.Text.Alphabetic
import TwinScript.Text.Numeric
import TwinScript.Token.Basic

/-!
# From a text to its tokens

A text is a sequence of gaps and lexemes. `skipGap` passes over a gap, `munch` reads the one lexeme
that opens what follows, and `scan` alternates the two to the end of the text or the first
fault. `munch` knows nothing of positions: these are counted over the characters passed, so what a
lexeme means cannot depend on where it stands.

* `nextToken_rest_length_lt`: every token takes some of the text, which is why scanning ends.
-/

namespace TwinScript

/-! ## Character classes -/

/-- The characters that separate tokens. -/
def isBlank (c : Char) : Bool :=
  c == ' ' || c == '\n' || c == '\t' || c == '\r'

/-- The quotation marks that open a string. -/
def isQuote (c : Char) : Bool :=
  c == '"' || c == '\''

/-- The characters that open a word. -/
def isWordStart (c : Char) : Bool :=
  isAlphabetic c || c == '_'

/-- The characters that go on with a word. -/
def isWordPart (c : Char) : Bool :=
  isAlphabetic c || isNumeric c || c == '_'

/-! ## Gaps -/

/-- Reads one character of a gap: whether a comment is open behind `c`, and `none` if `c` is no
part of a gap. A newline ends a comment and is itself blank. -/
def gapStep (inComment : Bool) (c : Char) : Option Bool :=
  if inComment then some (c != '\n')
  else if c == '#' then some true
  else if isBlank c then some false
  else none

/-- Passes over a gap that begins at `p`: the place behind it, and the text from there. -/
def skipGap (inComment : Bool) (p : Position) : List Char → Position × List Char
  | [] => (p, [])
  | c :: cs =>
    match gapStep inComment c with
    | some inComment => skipGap inComment (p.after c) cs
    | none => (p, c :: cs)

/-- Passing over a gap makes no text longer. -/
theorem skipGap_length_le (inComment : Bool) (p : Position) (text : List Char) :
    (skipGap inComment p text).2.length ≤ text.length := by
  fun_induction skipGap inComment p text with
  | case1 => exact Nat.le_refl _
  | case2 _ _ _ _ _ _ ih => exact Nat.le_succ_of_le ih
  | case3 => exact Nat.le_refl _

/-! ## Lexemes -/

/-- Why no lexeme can be read. -/
inductive ScanFault where
  | unexpectedCharacter (found : Char)
  | unterminatedString
  | outOfRange (digits : String)
  deriving DecidableEq, Inhabited

/-- A lexeme read off the front of a text. -/
structure Munch where
  /-- What it means. -/
  kind : Token.Kind
  /-- Its characters. -/
  lexeme : List Char
  /-- The text behind it. -/
  rest : List Char
  deriving Inhabited

/-- The character that a backslash before `c` stands for. -/
def unescape (c : Char) : Char :=
  if c = 'n' then '\n'
  else if c = 't' then '\t'
  else if c = 'r' then '\r'
  else if c = '0' then '\x00'
  else c

/-- Reads a string up to its closing `quote`, with the characters of its value and of its lexeme
that are already read (last first); `none` if it does not close. -/
def munchString (quote : Char) (value lexeme : List Char) : List Char → Option Munch
  | [] => none
  | '\\' :: c :: cs => munchString quote (unescape c :: value) (c :: '\\' :: lexeme) cs
  | c :: cs =>
    if c = quote then
      some ⟨.string (String.ofList value.reverse), (c :: lexeme).reverse, cs⟩
    else munchString quote (c :: value) (c :: lexeme) cs

/-- The number that a run of decimal digits writes. -/
def decimalValue (digits : List Char) : Nat :=
  digits.foldl (fun n d => 10 * n + (d.toNat - '0'.toNat)) 0

/-- The least number that is too large for 64 bits with a sign. -/
def integerBound : Nat := 0x8000000000000000

/-- What a run of digits means: a number that fits 64 bits with a sign. -/
def munchInteger (digits rest : List Char) : Except ScanFault Munch :=
  let n := decimalValue digits
  if n < integerBound then .ok ⟨.integer (Int64.ofNat n), digits, rest⟩
  else .error (.outOfRange (String.ofList digits))

/-- What a word means: a reserved word in one of its spellings, or a name. -/
def wordKind (word : String) : Token.Kind :=
  match Keyword.ofSpelling? word with
  | some k => .keyword k
  | none => .identifier word

/-- Reads the longest lexeme that opens the text `c :: cs`, which opens with no gap. -/
def munch (c : Char) (cs : List Char) : Except ScanFault Munch :=
  match Symbol.opening? (c :: cs) with
  | some s => .ok ⟨.symbol s, s.chars, (c :: cs).drop s.chars.length⟩
  | none =>
    if isQuote c then
      match munchString c [] [c] cs with
      | some m => .ok m
      | none => .error .unterminatedString
    else if c.isDigit then
      munchInteger (c :: cs.takeWhile Char.isDigit) (cs.dropWhile Char.isDigit)
    else if isWordStart c then
      let word := c :: cs.takeWhile isWordPart
      .ok ⟨wordKind (String.ofList word), word, cs.dropWhile isWordPart⟩
    else .error (.unexpectedCharacter c)

theorem munchString_rest_length_lt {quote : Char} {value lexeme cs : List Char} {m : Munch}
    (h : munchString quote value lexeme cs = some m) : m.rest.length < cs.length := by
  fun_induction munchString quote value lexeme cs with
  | case1 => simp at h
  | case2 value lexeme c cs ih => have := ih h; simp; omega
  | case3 value lexeme cs =>
    obtain rfl := Option.some.inj h
    simp
  | case4 value lexeme c cs _ _ ih => have := ih h; simp; omega

/-- The text behind a lexeme is shorter than the text that the lexeme opens. -/
theorem munch_rest_length_lt {c : Char} {cs : List Char} {m : Munch}
    (h : munch c cs = .ok m) : m.rest.length < (c :: cs).length := by
  have hdrop (p : Char → Bool) : (cs.dropWhile p).length < (c :: cs).length :=
    Nat.lt_succ_of_le (List.dropWhile_suffix p).length_le
  unfold munch at h
  split at h
  · next s _ =>
    obtain rfl := Except.ok.inj h
    have := s.length_chars_pos
    simp only [List.length_drop, List.length_cons]
    omega
  · split at h
    · split at h
      · next hm =>
        obtain rfl := Except.ok.inj h
        exact Nat.lt_succ_of_lt (munchString_rest_length_lt hm)
      · cases h
    · split at h
      · simp only [munchInteger] at h
        split at h
        · obtain rfl := Except.ok.inj h
          exact hdrop _
        · cases h
      · split at h
        · obtain rfl := Except.ok.inj h
          exact hdrop _
        · cases h

/-! ## Whole texts -/

/-- A fault and the place where the text cannot be read. -/
structure ScanError where
  /-- What is wrong. -/
  fault : ScanFault
  /-- The first character of what is wrong. -/
  pos : Position
  deriving DecidableEq, Inhabited

/-- The message of a fault. -/
def ScanFault.text : ScanFault → String
  | unexpectedCharacter found => String.join ["Unexpected character '", String.singleton found, "'."]
  | unterminatedString => "Unterminated string."
  | outOfRange digits => String.join ["Integer literal ", digits, " is out of range."]

/-- The message of a scanning error. -/
def ScanError.message (e : ScanError) : String :=
  e.pos.mark ++ e.fault.text

/-- A token, with the text behind it and the place where that begins. -/
structure Advance where
  /-- The token. -/
  token : Token
  /-- The place behind it. -/
  pos : Position
  /-- The text behind it. -/
  rest : List Char

/-- The first token of a text that begins at `p`: `none` if the text is one gap. -/
def nextToken (p : Position) (text : List Char) : Option (Except ScanError Advance) :=
  match skipGap false p text with
  | (_, []) => none
  | (start, c :: cs) =>
    match munch c cs with
    | .error fault => some (.error ⟨fault, start⟩)
    | .ok m =>
      some (.ok ⟨⟨m.kind, String.ofList m.lexeme, start⟩, start.afterAll m.lexeme, m.rest⟩)

/-- The text behind a token is shorter than the text before it. -/
theorem nextToken_rest_length_lt {p : Position} {text : List Char} {a : Advance}
    (h : nextToken p text = some (.ok a)) : a.rest.length < text.length := by
  have hgap := skipGap_length_le false p text
  unfold nextToken at h
  split at h
  · cases h
  · next hskip =>
    rw [hskip] at hgap
    split at h
    · cases h
    · next hm =>
      obtain rfl := Except.ok.inj (Option.some.inj h)
      exact Nat.lt_of_lt_of_le (munch_rest_length_lt hm) hgap

/-- What scanning a text finds: the tokens up to its end or its first fault. -/
structure Scan where
  /-- The tokens in the order of the text. -/
  tokens : List Token
  /-- The fault that ended the scan before the end of the text. -/
  error? : Option ScanError
  deriving Inhabited

/-- Scans on at `p`, with the tokens `done` (last first) already found. -/
def scanOn (done : List Token) (p : Position) (text : List Char) : Scan :=
  match _ : nextToken p text with
  | none => ⟨done.reverse, none⟩
  | some (.error e) => ⟨done.reverse, some e⟩
  | some (.ok a) => scanOn (a.token :: done) a.pos a.rest
termination_by text.length
decreasing_by exact nextToken_rest_length_lt ‹_›

/-- Scans a text from its beginning. -/
def scan (text : String) : Scan :=
  scanOn [] .start text.toList

/-- All tokens of a text, or the first fault. -/
def tokenize (text : String) : Except ScanError (List Token) :=
  let scan := scan text
  match scan.error? with
  | none => .ok scan.tokens
  | some e => .error e

end TwinScript
