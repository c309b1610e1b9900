import TwinScript.Syntax.Display

/-!
# Values

What programs compute with. A function of a program is a closure, and equal to no other one.
-/

namespace TwinScript

/-- A value. -/
inductive Val where
  | int (n : Int64)
  | str (s : String)
  | bool (b : Bool)
  | closure (c : Closure)
  | builtin (b : Builtin)
  | nothing
  deriving Inhabited

/-- What kind of value it is, as far as programs and messages tell kinds apart. -/
inductive ValType where
  | int
  | str
  | bool
  | fn
  | nothing
  deriving DecidableEq, Inhabited

/-- The name of a type in messages. -/
def ValType.text : ValType → String
  | int => "int"
  | str => "str"
  | bool => "bool"
  | fn => "fn"
  | nothing => "none"

namespace Val

/-- The value that a literal stands for. -/
def ofLiteral : Literal → Val
  | .int n => int n
  | .str s => str s
  | .bool b => bool b
  | .function c => closure c
  | .builtin b => builtin b
  | .nothing => nothing

/-- The type of a value. -/
def type : Val → ValType
  | int _ => .int
  | str _ => .str
  | bool _ => .bool
  | closure _ => .fn
  | builtin _ => .fn
  | nothing => .nothing

/-- Whether a value counts as true: zero, the empty string and `none` do not. -/
def truthy : Val → Bool
  | int n => n != 0
  | str s => !s.isEmpty
  | bool b => b
  | closure _ => true
  | builtin _ => true
  | nothing => false

/-- Whether two values are equal. Values of different kinds never are, and functions are equal only
to themselves. -/
def same : Val → Val → Bool
  | int a, int b => a == b
  | str a, str b => a == b
  | bool a, bool b => a == b
  | closure a, closure b => a.id == b.id
  | builtin a, builtin b => a == b
  | nothing, nothing => true
  | _, _ => false

/-- The text of a value, as it is printed and joined to strings. -/
def text : Val → String
  | int n => toString n.toInt
  | str s => s
  | bool b => boolText b
  | closure c => c.text
  | builtin b => b.text
  | nothing => "none"

end Val

end TwinScript
