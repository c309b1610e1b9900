import TwinScript.Token.Basic

/-!
# Program trees

Expressions and statements as the evaluator meets them. The parser builds only some of the trees:
it puts an operator where `Expr.unary` and `Expr.binary` take any kind of token, a block where
`Stmt.ifThen` and `Stmt.forLoop` take any statement, and no function where `Expr.literal` takes any
value. The evaluator gives every tree a meaning.
-/

namespace TwinScript

/-- The functions that are part of the language. -/
inductive Builtin where
  /-- Writes a value and a newline. -/
  | println
  deriving DecidableEq, Inhabited

/-- Names a frame, in which names are bound. -/
abbrev FrameId := Nat

mutual

/-- A value that stands in a tree. Texts write all but functions, which a tree may hold that was
built by hand. -/
inductive Literal where
  | int (n : Int64)
  | str (s : String)
  | bool (b : Bool)
  | function (c : Closure)
  | builtin (b : Builtin)
  | nothing

/-- A function of a program: its text together with the frame in which it was declared, and a number
that sets it apart from every other function, also from those that the same declaration yields when
it is executed again. -/
structure Closure where
  /-- Sets the function apart from all others. -/
  id : Nat
  /-- The name under which it was declared. -/
  name : String
  /-- The names of its parameters. -/
  params : List String
  /-- Its statements. -/
  body : List Stmt
  /-- The frame in which it was declared. -/
  scope : FrameId

/-- An expression. Each carries a position: an operator application that of its operator, a call
that of its callee, all others that of their token. -/
inductive Expr where
  | literal (pos : Position) (value : Literal)
  | var (pos : Position) (name : String)
  | unary (pos : Position) (op : Token.Kind) (operand : Expr)
  | binary (pos : Position) (op : Token.Kind) (left right : Expr)
  | call (pos : Position) (callee : Expr) (args : List Expr)

/-- A statement. -/
inductive Stmt where
  /-- Evaluates an expression. -/
  | expr (e : Expr)
  /-- Binds a name anew, where it is already bound or else here. -/
  | assign (name : String) (value : Expr)
  /-- Runs statements in a scope of their own. -/
  | block (body : List Stmt)
  /-- Runs the body if the condition holds. -/
  | ifThen (condition : Expr) (body : Stmt)
  /-- Runs the body as long as the condition holds, or for ever if there is none. -/
  | forLoop (pos : Position) (condition : Option Expr) (body : Stmt)
  /-- Ends the loop around it. -/
  | breakLoop
  /-- Ends this round of the loop around it. -/
  | continueLoop
  /-- Ends the function around it, with a value. -/
  | returnValue (value : Option Expr)
  /-- Binds a function here. -/
  | function (name : String) (params : List String) (body : List Stmt)

end

instance : Inhabited Literal := ⟨.nothing⟩

instance : Inhabited Closure := ⟨⟨default, default, default, [], default⟩⟩

instance : Inhabited Expr := ⟨.literal default default⟩

instance : Inhabited Stmt := ⟨.block []⟩

/-- The position that errors about an expression name. -/
def Expr.pos : Expr → Position
  | literal pos _ => pos
  | var pos _ => pos
  | unary pos _ _ => pos
  | binary pos _ _ _ => pos
  | call pos _ _ => pos

end TwinScript
