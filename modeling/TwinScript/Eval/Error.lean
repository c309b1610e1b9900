import TwinScript.Sink
import TwinScript.Value.Basic

/-!
# Runtime errors

Every way in which a program can fail while it runs, with its place in the program and its
message. Two kinds have no place: failing output, and a signal that nothing was there to receive.
-/

namespace TwinScript

/-- What is said of a name that is bound nowhere. -/
def unboundText (name : String) : String :=
  String.join ["Unbound name '", name, "'."]

/-- How many functions may be running inside each other. -/
def maxCallDepth : Nat := 200

/-- Why a program stopped. -/
inductive EvalError where
  /-- The name is bound nowhere. -/
  | unboundName (pos : Position) (name : String)
  /-- The value of that type was called. -/
  | notCallable (pos : Position) (type : ValType)
  /-- The divisor of a quotient or remainder is zero. -/
  | divisionByZero (pos : Position)
  /-- The operator has no meaning for operands of these types. -/
  | typeMismatch (pos : Position) (op : Token.Kind) (operands : List ValType)
  /-- The exact result does not fit 64 bits with a sign. -/
  | overflow (pos : Position)
  /-- The function takes another number of arguments. -/
  | wrongArgumentCount (pos : Position) (expected got : Nat)
  /-- More loop rounds and calls than allowed. -/
  | stepLimitExceeded (pos : Position) (limit : Nat)
  /-- More than `maxCallDepth` functions running inside each other. -/
  | callDepthExceeded (pos : Position)
  /-- A signal with nothing around it to receive it. -/
  | strayControl (k : Keyword)
  /-- The output was not accepted. -/
  | output (cause : SinkError)
  deriving DecidableEq, Inhabited

namespace EvalError

/-- The place in the program where it failed. -/
def pos? : EvalError → Option Position
  | unboundName pos _ => some pos
  | notCallable pos _ => some pos
  | divisionByZero pos => some pos
  | typeMismatch pos _ _ => some pos
  | overflow pos => some pos
  | wrongArgumentCount pos _ _ => some pos
  | stepLimitExceeded pos _ => some pos
  | callDepthExceeded pos => some pos
  | strayControl _ => none
  | output _ => none

/-- The message without its place. -/
def text : EvalError → String
  | unboundName _ name => unboundText name
  | notCallable _ type => String.join ["Value of type ", type.text, " is not callable."]
  | divisionByZero _ => "Division by zero."
  | typeMismatch _ op operands =>
    String.join
      ["Operator '", op.text, "' cannot be applied to ",
       " and ".intercalate (operands.map (·.text)), "."]
  | overflow _ => "Integer overflow."
  | wrongArgumentCount _ expected got =>
    String.join ["Expected ", toString expected, " arguments, got ", toString got, "."]
  | stepLimitExceeded _ limit => String.join ["Step limit of ", toString limit, " exceeded."]
  | callDepthExceeded _ =>
    String.join ["Maximum call depth of ", toString maxCallDepth, " exceeded."]
  | strayControl k => String.join ["'", k.text, "' is not allowed here."]
  | output cause => String.join ["Could not write output: ", cause.message]

/-- The message of a runtime error. -/
def message (e : EvalError) : String :=
  match e.pos? with
  | some p => p.mark ++ e.text
  | none => e.text

end EvalError

end TwinScript
