import TwinScript.Keyword
import TwinScript.Position
import TwinScript.Text.Quoted
import TwinScript.Token.Symbol

/-!
# Tokens

A token is what a stretch of text means (its kind), the stretch itself (its lexeme) and where the
stretch begins. The parser looks at kinds and lines only; lexemes are kept for messages.
-/

namespace TwinScript

/-- What a token stands for. -/
inductive Token.Kind where
  | symbol (s : Symbol)
  | identifier (name : String)
  | string (value : String)
  | integer (value : Int64)
  | keyword (k : Keyword)
  deriving DecidableEq, Inhabited

/-- A token of a text. -/
structure Token where
  /-- What it stands for. -/
  kind : Token.Kind
  /-- How it is written. -/
  lexeme : String
  /-- Where it begins. -/
  pos : Position
  deriving DecidableEq, Inhabited

/-- The text of a kind of token in messages. Reserved words appear in English and strings as
literals, whatever their spelling in the program. -/
def Token.Kind.text : Token.Kind → String
  | symbol s => s.text
  | identifier name => name
  | string value => quoted value
  | integer value => toString value.toInt
  | keyword k => k.text

end TwinScript
