import TwinScript.Syntax.Basic

/-!
# Expressions as text

Every operator application is written in parentheses, so the text shows how an expression was
grouped. Strings are written as literals.
-/

namespace TwinScript

/-- The name of a function of the language. -/
def Builtin.name : Builtin → String
  | println => "println"

/-- How a function of the language is shown as a value. -/
def Builtin.text (b : Builtin) : String :=
  String.join ["<native ", b.name, ">"]

/-- How a function of a program is shown as a value. -/
def Closure.text (c : Closure) : String :=
  String.join ["<fn ", c.name, ">"]

/-- The word for a truth value. -/
def boolText (b : Bool) : String :=
  if b then "true" else "false"

/-- How a literal is shown inside an expression. -/
def Literal.text : Literal → String
  | int n => toString n.toInt
  | str s => quoted s
  | bool b => boolText b
  | function c => c.text
  | builtin b => b.text
  | nothing => "none"

mutual

/-- The text of an expression. -/
def Expr.text : Expr → String
  | literal _ value => value.text
  | var _ name => name
  | unary _ op operand => "(" ++ op.text ++ operand.text ++ ")"
  | binary _ op left right => "(" ++ left.text ++ " " ++ op.text ++ " " ++ right.text ++ ")"
  | call _ callee args => callee.text ++ "(" ++ Expr.argsText args ++ ")"

/-- The texts of a call's arguments, with commas between them. -/
def Expr.argsText : List Expr → String
  | [] => ""
  | [arg] => arg.text
  | arg :: rest => arg.text ++ ", " ++ Expr.argsText rest

end

end TwinScript
