import TwinScript.Token.Scan

/-!
# Fragments of a session

A session is typed line by line, and lines belong together as long as a bracket or a string is
open. `fragments` cuts the lines of a session into such groups.
-/

namespace TwinScript

/-- What a token adds to the number of open brackets. -/
def Token.Kind.bracket : Token.Kind → Int
  | .symbol .leftParen => 1
  | .symbol .leftBrace => 1
  | .symbol .rightParen => -1
  | .symbol .rightBrace => -1
  | _ => 0

/-- How many more brackets the tokens open than they close. -/
def bracketDepth (tokens : List Token) : Int :=
  tokens.foldl (fun depth token => depth + token.kind.bracket) 0

/-- Whether more lines belong to the text: a string or a bracket is open at its end. A text with
any other fault is complete, so that the fault is reported. -/
def isOpen (text : String) : Bool :=
  let scan := scan text
  match scan.error? with
  | none => 0 < bracketDepth scan.tokens
  | some ⟨.unterminatedString, _⟩ => true
  | some _ => false

/-- A line added to the text before it. Text that is empty counts as no text: nothing is put in
front of the line then, not even a line break. -/
def joinLine (pending line : String) : String :=
  if pending.isEmpty then line else pending ++ "\n" ++ line

/-- Cuts further lines into groups; `done` are finished (last first), and `pending` is open, or
empty between two groups. -/
def fragmentsOn (done : List String) (pending : String) : List String → List String
  | [] => (if pending.isEmpty then done else pending :: done).reverse
  | line :: rest =>
    let text := joinLine pending line
    if isOpen text then fragmentsOn done text rest
    else fragmentsOn (text :: done) "" rest

/-- The fragments that lines make up. A group ends at the first line behind which nothing is open,
and what is open behind the last line is a fragment as well. -/
def fragments (lines : List String) : List String :=
  fragmentsOn [] "" lines

end TwinScript
