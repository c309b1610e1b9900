import TwinScript.Token.Basic

/-!
# Parse errors

A parse error is a reason and the token at which the text stops making sense; there is none when
the text ends too early. Messages name the token as it was written, so a reserved word appears in
the vocabulary of its author.
-/

namespace TwinScript

/-- How many blocks, expressions and prefix operands may be open inside each other. -/
def maxNesting : Nat := 256

/-- Why a list of tokens is no program. -/
inductive ParseFault where
  /-- No expression starts here. -/
  | unexpectedToken
  /-- Something else has to stand here. -/
  | expected (what : String)
  /-- `break` or `continue` without a loop around it. -/
  | loopControlOutsideLoop (k : Keyword)
  /-- `return` without a function around it. -/
  | returnOutsideFunction
  /-- More than `maxNesting` productions are open. -/
  | nestingTooDeep
  deriving DecidableEq, Inhabited

/-- A fault and the token at which it shows, or none at the end of the text. -/
structure ParseError where
  /-- What is wrong. -/
  fault : ParseFault
  /-- The token at which it is wrong. -/
  token? : Option Token
  deriving DecidableEq, Inhabited

namespace ParseError

/-- Where the error is, if it is not at the end of the text. -/
def pos? (e : ParseError) : Option Position :=
  e.token?.map (·.pos)

/-- The message without its position. -/
def text (e : ParseError) : String :=
  match e.fault, e.token? with
  | .unexpectedToken, some token => String.join ["Unexpected token '", token.lexeme, "'."]
  | .unexpectedToken, none => "Unexpected end of input."
  | .expected what, some token =>
    String.join ["Expected ", what, " but got '", token.lexeme, "'."]
  | .expected what, none => String.join ["Expected ", what, " but got end of input."]
  | .loopControlOutsideLoop _, some token =>
    String.join ["'", token.lexeme, "' outside of a loop."]
  | .loopControlOutsideLoop k, none => String.join ["'", k.text, "' outside of a loop."]
  | .returnOutsideFunction, some token =>
    String.join ["'", token.lexeme, "' outside of a function."]
  | .returnOutsideFunction, none => "'return' outside of a function."
  | .nestingTooDeep, _ =>
    String.join ["Nesting deeper than ", toString maxNesting, " levels."]

/-- The message of a parse error. -/
def message (e : ParseError) : String :=
  match e.pos? with
  | some p => p.mark ++ e.text
  | none => e.text

end ParseError

end TwinScript
