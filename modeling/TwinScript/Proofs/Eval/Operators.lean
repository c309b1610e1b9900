import TwinScript.Eval.Operators

/-!
# What operators give

An operator never gives a function, and it fails in three ways only, each at its own place: with a
division by zero, an overflow, or operands of types that it has no meaning for.
-/

namespace TwinScript

/-- The errors that an operator `op` at `pos` may end with. -/
def OperatorError (pos : Position) (op : Token.Kind) (types : List ValType) (e : EvalError) :
    Prop :=
  e = .divisionByZero pos ∨ e = .overflow pos ∨ e = .typeMismatch pos op types

/-- The answer is a value that is no function, or one of the errors of the operator. -/
def OperatorAnswer (pos : Position) (op : Token.Kind) (types : List ValType) :
    Except EvalError Val → Prop
  | .ok v => v.type ≠ .fn
  | .error e => OperatorError pos op types e

section

variable (pos : Position) (op : Token.Kind) (types : List ValType)

/-- A result that does not fit is an overflow. -/
theorem exactInt_answer (n : Int) : OperatorAnswer pos op types (exactInt pos n) := by
  unfold exactInt
  split
  · simp [OperatorAnswer, Val.type]
  · exact .inr (.inl rfl)

/-- A quotient fails for a zero below, and for the one that does not fit. -/
theorem divide_answer (a b : Int64) : OperatorAnswer pos op types (divide pos a b) := by
  unfold divide
  split
  · exact .inl rfl
  · exact exactInt_answer pos op types _

/-- A remainder fails where its quotient does. -/
theorem remainder_answer (a b : Int64) : OperatorAnswer pos op types (remainder pos a b) := by
  have hd := divide_answer pos op types a b
  unfold remainder
  cases hq : divide pos a b with
  | error e =>
    rw [hq] at hd
    exact hd
  | ok q => exact exactInt_answer pos op types _

end

/-- Operands of the wrong types are reported with both their types. -/
theorem mismatch_answer (pos : Position) (op : Token.Kind) (l r : Val) :
    OperatorAnswer pos op [l.type, r.type] (mismatch pos op l r) :=
  .inr (.inr rfl)

/-- By cases on the operator and the types of its operands. -/
theorem binaryValue_answer (pos : Position) (op : Token.Kind) (l r : Val) :
    OperatorAnswer pos op [l.type, r.type] (binaryValue pos op l r) := by
  unfold binaryValue
  split <;> (try split) <;>
    first
    | exact exactInt_answer _ _ _ _
    | exact divide_answer _ _ _ _ _
    | exact remainder_answer _ _ _ _ _
    | exact mismatch_answer _ _ _ _
    | simp [OperatorAnswer, Val.type]

/-- By cases on the prefix and the type of its operand. -/
theorem unaryValue_answer (pos : Position) (op : Token.Kind) (x : Val) :
    OperatorAnswer pos op [x.type] (unaryValue pos op x) := by
  unfold unaryValue
  split
  · simp [OperatorAnswer, Val.type]
  · exact exactInt_answer _ _ _ _
  · exact .inr (.inr rfl)

end TwinScript
