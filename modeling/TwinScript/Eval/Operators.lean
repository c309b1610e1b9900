import TwinScript.Eval.Error

/-!
# Operators

What an operator makes of the values of its operands. Arithmetic is exact: a result outside the
64-bit range is an error and never wraps. A string on either side of `+` joins the text of the
other side to it. A token that is no operator has no meaning for any operands.
-/

namespace TwinScript

/-- Whether `n` fits 64 bits with a sign. -/
def fits64 (n : Int) : Bool :=
  Int64.minValue.toInt ≤ n && n ≤ Int64.maxValue.toInt

/-- The value of an exact result, if it fits. -/
def exactInt (pos : Position) (n : Int) : Except EvalError Val :=
  if fits64 n then .ok (.int (Int64.ofInt n)) else .error (.overflow pos)

/-- The quotient, rounded toward zero. -/
def divide (pos : Position) (a b : Int64) : Except EvalError Val :=
  if b = 0 then .error (.divisionByZero pos) else exactInt pos (a.toInt.tdiv b.toInt)

/-- What the quotient leaves, with the sign of the dividend. It fails wherever the quotient
does. -/
def remainder (pos : Position) (a b : Int64) : Except EvalError Val := do
  let _ ← divide pos a b
  exactInt pos (a.toInt.tmod b.toInt)

/-- The error of an operator that has no meaning for two operands. -/
def mismatch (pos : Position) (op : Token.Kind) (l r : Val) : Except EvalError Val :=
  .error (.typeMismatch pos op [l.type, r.type])

/-- The value of `l op r`. The operators that look at their right operand only when they have to
are not among those that it gives a meaning (`Expr.eval` does). -/
def binaryValue (pos : Position) (op : Token.Kind) (l r : Val) : Except EvalError Val :=
  match op with
  | .symbol .plus =>
    match l, r with
    | .int a, .int b => exactInt pos (a.toInt + b.toInt)
    | .str a, b => .ok (.str (a ++ b.text))
    | a, .str b => .ok (.str (a.text ++ b))
    | _, _ => mismatch pos op l r
  | .symbol .minus =>
    match l, r with
    | .int a, .int b => exactInt pos (a.toInt - b.toInt)
    | _, _ => mismatch pos op l r
  | .symbol .star =>
    match l, r with
    | .int a, .int b => exactInt pos (a.toInt * b.toInt)
    | _, _ => mismatch pos op l r
  | .symbol .slash =>
    match l, r with
    | .int a, .int b => divide pos a b
    | _, _ => mismatch pos op l r
  | .symbol .percent =>
    match l, r with
    | .int a, .int b => remainder pos a b
    | _, _ => mismatch pos op l r
  | .symbol .less =>
    match l, r with
    | .int a, .int b => .ok (.bool (a < b))
    | .str a, .str b => .ok (.bool (a < b))
    | _, _ => mismatch pos op l r
  | .symbol .lessEqual =>
    match l, r with
    | .int a, .int b => .ok (.bool (a ≤ b))
    | .str a, .str b => .ok (.bool (a ≤ b))
    | _, _ => mismatch pos op l r
  | .symbol .greater =>
    match l, r with
    | .int a, .int b => .ok (.bool (b < a))
    | .str a, .str b => .ok (.bool (b < a))
    | _, _ => mismatch pos op l r
  | .symbol .greaterEqual =>
    match l, r with
    | .int a, .int b => .ok (.bool (b ≤ a))
    | .str a, .str b => .ok (.bool (b ≤ a))
    | _, _ => mismatch pos op l r
  | .symbol .equalEqual => .ok (.bool (l.same r))
  | .symbol .bangEqual => .ok (.bool (!l.same r))
  | _ => mismatch pos op l r

/-- The value of `op x`. -/
def unaryValue (pos : Position) (op : Token.Kind) (x : Val) : Except EvalError Val :=
  match op, x with
  | .symbol .bang, x => .ok (.bool (!x.truthy))
  | .symbol .minus, .int a => exactInt pos (-a.toInt)
  | op, x => .error (.typeMismatch pos op [x.type])

end TwinScript
