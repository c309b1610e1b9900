import TwinScript.Eval.Run

/-!
# Arithmetic is exact

Integers of a program fit 64 bits with a sign, but its arithmetic is that of all integers: a result
that does not fit is an error and never another number. `Arithmetic` holds the expressions that this
is about. What they mean is said without looking at 64 bits: their value over the unbounded integers
(`Arithmetic.value`), and the error of a node at which the values do not fit (`Arithmetic.fault?`).

* `ArithmeticOp.binaryValue_eq`: what one operator makes of two integers.
* `Arithmetic.eval_eq`: evaluation gives the value, or the first fault of a node.
* `arithmetic_is_exact`: the same of evaluation in any state, and what the faults say.
-/

namespace TwinScript

/-! ## The range of the integers -/

/-- The integers that fit 64 bits with a sign. -/
def InRange (n : Int) : Prop := -0x8000000000000000 ≤ n ∧ n < 0x8000000000000000

instance : DecidablePred InRange := fun _ => inferInstanceAs (Decidable (_ ∧ _))

theorem inRange_toInt (n : Int64) : InRange n.toInt :=
  ⟨n.le_toInt, n.toInt_lt⟩

/-- An integer in the range is the same with 64 bits. -/
theorem toInt_ofInt_of_inRange {n : Int} (h : InRange n) : (Int64.ofInt n).toInt = n :=
  Int64.toInt_ofInt_of_le h.1 h.2

theorem fits64_iff (n : Int) : fits64 n = true ↔ InRange n := by
  have hmin : Int64.minValue.toInt = -0x8000000000000000 := rfl
  have hmax : Int64.maxValue.toInt = 0x7fffffffffffffff := rfl
  unfold fits64 InRange
  rw [hmin, hmax, Bool.and_eq_true, decide_eq_true_iff, decide_eq_true_iff]
  omega

theorem exactInt_eq (pos : Position) (n : Int) :
    exactInt pos n =
      if InRange n then .ok (.int (Int64.ofInt n)) else .error (.overflow pos) := by
  unfold exactInt
  simp only [fits64_iff]

theorem exactInt_toInt (pos : Position) (n : Int64) : exactInt pos n.toInt = .ok (.int n) := by
  rw [exactInt_eq, if_pos (inRange_toInt n), Int64.ofInt_toInt]

/-- A remainder is no further from zero than the dividend, and on the same side. -/
theorem InRange.tmod {a : Int} (h : InRange a) (b : Int) : InRange (a.tmod b) := by
  have hle : (a.tmod b).natAbs ≤ a.natAbs := by
    rw [Int.natAbs_tmod]
    exact Nat.mod_le _ _
  have hnonneg : 0 ≤ a → 0 ≤ a.tmod b := Int.tmod_nonneg b
  have hnonpos : a < 0 → a.tmod b ≤ 0 := fun ha => by
    have hneg := Int.tmod_nonneg b (Int.neg_nonneg_of_nonpos (Int.le_of_lt ha))
    rw [Int.neg_tmod] at hneg
    omega
  unfold InRange at *
  omega

/-! ## The operators of arithmetic -/

/-- The operators of arithmetic between two operands. -/
inductive ArithmeticOp where
  | plus
  | minus
  | star
  | slash
  | percent
  deriving DecidableEq, Inhabited

namespace ArithmeticOp

/-- How the operator is written. -/
def symbol : ArithmeticOp → Symbol
  | plus => .plus
  | minus => .minus
  | star => .star
  | slash => .slash
  | percent => .percent

/-- The operator divides. -/
def Divides (op : ArithmeticOp) : Prop := op = slash ∨ op = percent

instance (op : ArithmeticOp) : Decidable op.Divides := inferInstanceAs (Decidable (_ ∨ _))

/-- What the operator gives over the unbounded integers: a quotient is rounded toward zero, and a
remainder is what that leaves, with the sign of the dividend. -/
def result (op : ArithmeticOp) (a b : Int) : Int :=
  match op with
  | plus => a + b
  | minus => a - b
  | star => a * b
  | slash => a.tdiv b
  | percent => a.tmod b

/-- What has to be in range: the result, but the quotient if a remainder is asked for. -/
def extent (op : ArithmeticOp) (a b : Int) : Int :=
  match op with
  | percent => a.tdiv b
  | op => op.result a b

/-- The result is in range if what has to be is. -/
theorem inRange_result {op : ArithmeticOp} {a b : Int} (ha : InRange a)
    (h : InRange (op.extent a b)) : InRange (op.result a b) := by
  cases op with
  | percent => exact ha.tmod b
  | _ => exact h

theorem divide_eq (pos : Position) (a b : Int64) :
    divide pos a b =
      if b.toInt = 0 then .error (.divisionByZero pos)
      else exactInt pos (a.toInt.tdiv b.toInt) := by
  have hzero : b = 0 ↔ b.toInt = 0 := by
    rw [← Int64.toInt_inj]
    rfl
  unfold divide
  simp only [hzero]

/-- **What an operator gives** for two integers of a program: an error if the divisor is zero or
what has to be in range is not, and otherwise the result over the unbounded integers. -/
theorem binaryValue_eq (pos : Position) (op : ArithmeticOp) (a b : Int64) :
    binaryValue pos (.symbol op.symbol) (.int a) (.int b) =
      if op.Divides ∧ b.toInt = 0 then .error (.divisionByZero pos)
      else if InRange (op.extent a.toInt b.toInt) then
        .ok (.int (Int64.ofInt (op.result a.toInt b.toInt)))
      else .error (.overflow pos) := by
  cases op with
  | plus => exact exactInt_eq pos _
  | minus => exact exactInt_eq pos _
  | star => exact exactInt_eq pos _
  | slash =>
    have hslash : binaryValue pos (.symbol slash.symbol) (.int a) (.int b) = divide pos a b := rfl
    have hdivides : slash.Divides := .inl rfl
    rw [hslash, divide_eq, exactInt_eq]
    simp only [hdivides, true_and]
    rfl
  | percent =>
    have hpercent : binaryValue pos (.symbol percent.symbol) (.int a) (.int b) =
      (divide pos a b).bind fun _ => exactInt pos (a.toInt.tmod b.toInt) := rfl
    have hremainder : InRange (a.toInt.tmod b.toInt) := (inRange_toInt a).tmod _
    rw [hpercent, divide_eq, exactInt_eq, exactInt_eq, if_pos hremainder]
    by_cases hzero : b.toInt = 0
    · simp [Divides, hzero, Except.bind]
    · by_cases hfits : InRange (a.toInt.tdiv b.toInt)
      · simp [extent, result, hzero, hfits, Except.bind]
      · simp [extent, hzero, hfits, Except.bind]

end ArithmeticOp

/-! ## Expressions of arithmetic -/

/-- An expression of integer literals, negations and operators of arithmetic. -/
inductive Arithmetic where
  | literal (pos : Position) (n : Int64)
  | negation (pos : Position) (operand : Arithmetic)
  | operation (pos : Position) (op : ArithmeticOp) (left right : Arithmetic)
  deriving DecidableEq, Inhabited

namespace Arithmetic

/-- The tree of the expression. -/
def expr : Arithmetic → Expr
  | literal pos n => .literal pos (.int n)
  | negation pos operand => .unary pos (.symbol .minus) operand.expr
  | operation pos op left right => .binary pos (.symbol op.symbol) left.expr right.expr

/-- The value over the unbounded integers. -/
def value : Arithmetic → Int
  | literal _ n => n.toInt
  | negation _ operand => -operand.value
  | operation _ op left right => op.result left.value right.value

/-- The node is a quotient or a remainder, and its divisor is zero. -/
def DividesByZero : Arithmetic → Prop
  | operation _ op _ right => op.Divides ∧ right.value = 0
  | _ => False

instance : DecidablePred DividesByZero
  | literal .. => inferInstanceAs (Decidable False)
  | negation .. => inferInstanceAs (Decidable False)
  | operation .. => inferInstanceAs (Decidable (_ ∧ _))

/-- What has to be in range at a node: its value, but the quotient if it is a remainder. -/
def extent : Arithmetic → Int
  | operation _ op left right => op.extent left.value right.value
  | a => a.value

/-- The error of a node, by the values of its operands. -/
def fault? (a : Arithmetic) : Option EvalError :=
  if a.DividesByZero then some (.divisionByZero a.expr.pos)
  else if InRange a.extent then none
  else some (.overflow a.expr.pos)

/-- The nodes inside an expression from left to right, each behind its own operands. -/
def inside : Arithmetic → List Arithmetic
  | literal .. => []
  | negation _ operand => operand.inside ++ [operand]
  | operation _ _ left right => (left.inside ++ [left]) ++ (right.inside ++ [right])

/-- All nodes from left to right, each behind its operands. -/
def nodes (a : Arithmetic) : List Arithmetic := a.inside ++ [a]

/-- The error of the first node that has one. -/
def firstFault? (a : Arithmetic) : Option EvalError := a.nodes.findSome? fault?

theorem firstFault?_eq_none_iff (a : Arithmetic) :
    a.firstFault? = none ↔ ∀ m ∈ a.nodes, m.fault? = none :=
  List.findSome?_eq_none_iff

/-- The first error is one inside, or the node's own. -/
theorem firstFault?_eq (a : Arithmetic) :
    a.firstFault? = (a.inside.findSome? fault?).or a.fault? := by
  rw [firstFault?, nodes, List.findSome?_append, List.findSome?_singleton]

theorem firstFault?_negation (pos : Position) (operand : Arithmetic) :
    (negation pos operand).firstFault? = operand.firstFault?.or (negation pos operand).fault? :=
  firstFault?_eq _

theorem firstFault?_operation (pos : Position) (op : ArithmeticOp) (left right : Arithmetic) :
    (operation pos op left right).firstFault? =
      (left.firstFault?.or right.firstFault?).or (operation pos op left right).fault? := by
  rw [firstFault?_eq, inside, List.findSome?_append]
  rfl

/-- A node has one of two errors, or none. -/
theorem fault?_cases (a : Arithmetic) :
    (a.DividesByZero ∧ a.fault? = some (.divisionByZero a.expr.pos)) ∨
      (¬ a.DividesByZero ∧ InRange a.extent ∧ a.fault? = none) ∨
      (¬ a.DividesByZero ∧ ¬ InRange a.extent ∧ a.fault? = some (.overflow a.expr.pos)) := by
  unfold fault?
  by_cases hzero : a.DividesByZero
  · exact .inl ⟨hzero, if_pos hzero⟩
  · rw [if_neg hzero]
    by_cases hrange : InRange a.extent
    · exact .inr (.inl ⟨hzero, hrange, if_pos hrange⟩)
    · exact .inr (.inr ⟨hzero, hrange, if_neg hrange⟩)

theorem firstFault?_literal (pos : Position) (n : Int64) : (literal pos n).firstFault? = none := by
  rcases fault?_cases (literal pos n) with ⟨hzero, _⟩ | ⟨_, _, hself⟩ | ⟨_, hout, _⟩
  · exact hzero.elim
  · exact (firstFault?_eq _).trans hself
  · exact absurd (inRange_toInt n) hout

/-- The value is in range if no node has an error. -/
theorem inRange_value {a : Arithmetic} (h : a.firstFault? = none) : InRange a.value := by
  have hself {a : Arithmetic} (h : a.fault? = none) : InRange a.extent := by
    rcases fault?_cases a with ⟨_, hzero⟩ | ⟨_, hrange, _⟩ | ⟨_, _, hover⟩
    · cases h.symm.trans hzero
    · exact hrange
    · cases h.symm.trans hover
  induction a with
  | literal pos n => exact inRange_toInt n
  | negation pos operand _ =>
    rw [firstFault?_negation, Option.or_eq_none_iff] at h
    exact hself h.2
  | operation pos op left right ihleft _ =>
    rw [firstFault?_operation, Option.or_eq_none_iff, Option.or_eq_none_iff] at h
    exact ArithmeticOp.inRange_result (ihleft h.1.1) (hself h.2)

/-! ## Evaluation -/

/-- The value, if there is no error. -/
def answerBut (a : Arithmetic) : Option EvalError → Except EvalError Val
  | none => .ok (.int (Int64.ofInt a.value))
  | some e => .error e

/-- The value, or the error of the first node that has one. -/
def answer (a : Arithmetic) : Except EvalError Val := a.answerBut a.firstFault?

theorem answerBut_fault? (a : Arithmetic) :
    a.answerBut a.fault? =
      if a.DividesByZero then .error (.divisionByZero a.expr.pos)
      else if InRange a.extent then .ok (.int (Int64.ofInt a.value))
      else .error (.overflow a.expr.pos) := by
  unfold fault?
  split
  · rfl
  · split <;> rfl

/-- A negation is what its sign makes of the answer of its operand. -/
theorem answer_negation (pos : Position) (operand : Arithmetic) :
    (negation pos operand).answer = operand.answer.bind (unaryValue pos (.symbol .minus)) := by
  unfold answer
  rw [firstFault?_negation]
  cases hoperand : operand.firstFault? with
  | some e => rfl
  | none =>
    have hvalue := toInt_ofInt_of_inRange (inRange_value hoperand)
    have hsign : (operand.answerBut none).bind (unaryValue pos (.symbol .minus)) =
        exactInt pos (-(Int64.ofInt operand.value).toInt) := rfl
    rw [Option.none_or, answerBut_fault?, hsign, hvalue, exactInt_eq]
    rfl

/-- An operation is what its operator makes of the answers of its operands. -/
theorem answer_operation (pos : Position) (op : ArithmeticOp) (left right : Arithmetic) :
    (operation pos op left right).answer =
      left.answer.bind fun l => right.answer.bind fun r =>
        binaryValue pos (.symbol op.symbol) l r := by
  unfold answer
  rw [firstFault?_operation]
  cases hleft : left.firstFault? with
  | some e => rfl
  | none =>
    cases hright : right.firstFault? with
    | some e => rfl
    | none =>
      have hl := toInt_ofInt_of_inRange (inRange_value hleft)
      have hr := toInt_ofInt_of_inRange (inRange_value hright)
      have hoperator : ((left.answerBut none).bind fun l => (right.answerBut none).bind fun r =>
          binaryValue pos (.symbol op.symbol) l r) = binaryValue pos (.symbol op.symbol)
            (.int (Int64.ofInt left.value)) (.int (Int64.ofInt right.value)) := rfl
      rw [Option.none_or, Option.none_or, answerBut_fault?, hoperator,
        ArithmeticOp.binaryValue_eq, hl, hr]
      rfl

/-- Evaluation gives the value over the unbounded integers, or the error of the first node that has
one, and changes nothing. -/
theorem eval_eq (call : CallRule) (f : FrameId) (a : Arithmetic) :
    a.expr.eval call f = Eval.ofExcept a.answer := by
  induction a with
  | literal pos n =>
    have hvalue : Val.ofLiteral (.int n) = .int (Int64.ofInt (literal pos n).value) := by
      rw [value, Int64.ofInt_toInt, Val.ofLiteral]
    rw [expr, Expr.eval, hvalue, answer, firstFault?_literal]
    rfl
  | negation pos operand ih =>
    rw [expr, Expr.eval, ih, answer_negation]
    cases operand.answer <;> rfl
  | operation pos op left right ihleft ihright =>
    have hor : ¬ Token.Kind.symbol op.symbol = .symbol .orOr := by cases op <;> decide
    have hand : ¬ Token.Kind.symbol op.symbol = .symbol .andAnd := by cases op <;> decide
    rw [expr, Expr.eval, ihleft, ihright, answer_operation]
    simp only [if_neg hor, if_neg hand]
    cases left.answer with
    | error e => rfl
    | ok l => cases right.answer <;> rfl

theorem eval_of_firstFault? {a : Arithmetic} {e : EvalError} (h : a.firstFault? = some e)
    (call : CallRule) (f : FrameId) (st : State) : a.expr.eval call f st = .failed e st := by
  rw [eval_eq, answer, h]
  rfl

/-- Where no operand has an error, the error of a node is the one that it fails with. -/
theorem eval_eq_failed_iff {a : Arithmetic} (h : ∀ m ∈ a.inside, m.fault? = none) (call : CallRule)
    (f : FrameId) (st : State) (e : EvalError) :
    a.expr.eval call f st = .failed e st ↔ a.fault? = some e := by
  have hself : a.firstFault? = a.fault? := by
    rw [firstFault?_eq, List.findSome?_eq_none_iff.mpr h, Option.none_or]
  rw [eval_eq, answer, hself]
  cases a.fault? with
  | none => simp [answerBut, Eval.ofExcept, Eval.result]
  | some e' => simp [answerBut, Eval.ofExcept, Eval.fail]

end Arithmetic

/-- **Arithmetic is exact.** An expression of integer literals, negations and `+ - * / %` changes
nothing, in any state. If no node has an error, it gives its value over the unbounded integers.
Otherwise it fails with the error of the first node that has one, from left to right and operands
before their operator. And a node with operands that do not fail fails itself exactly if it divides
by zero, or if its value, or the quotient for a remainder, does not fit 64 bits with a sign. -/
theorem arithmetic_is_exact (a : Arithmetic) (call : CallRule) (f : FrameId) (st : State) :
    ((∀ m ∈ a.nodes, m.fault? = none) →
      ∃ n : Int64, n.toInt = a.value ∧ a.expr.eval call f st = .done (.int n) st) ∧
    (∀ before m after e, a.nodes = before ++ m :: after → (∀ o ∈ before, o.fault? = none) →
      m.fault? = some e → a.expr.eval call f st = .failed e st) ∧
    (∀ m : Arithmetic, (∀ o ∈ m.inside, o.fault? = none) →
      (m.expr.eval call f st = .failed (.divisionByZero m.expr.pos) st ↔ m.DividesByZero) ∧
      (m.expr.eval call f st = .failed (.overflow m.expr.pos) st ↔
        ¬ m.DividesByZero ∧ ¬ InRange m.extent)) ∧
    ∀ e after, a.expr.eval call f st = .failed e after →
      after = st ∧ ∃ m ∈ a.nodes, e = .divisionByZero m.expr.pos ∨ e = .overflow m.expr.pos := by
  refine ⟨fun h => ?_, fun before m after e hnodes hbefore hm => ?_, fun m h => ⟨?_, ?_⟩,
    fun e after h => ?_⟩
  · have hnone := a.firstFault?_eq_none_iff.mpr h
    refine ⟨Int64.ofInt a.value, toInt_ofInt_of_inRange (Arithmetic.inRange_value hnone), ?_⟩
    rw [Arithmetic.eval_eq, Arithmetic.answer, hnone]
    rfl
  · refine Arithmetic.eval_of_firstFault? ?_ call f st
    rw [Arithmetic.firstFault?, hnodes, List.findSome?_append,
      List.findSome?_eq_none_iff.mpr hbefore, Option.none_or, List.findSome?_cons, hm]
  · rw [Arithmetic.eval_eq_failed_iff h]
    rcases m.fault?_cases with ⟨hzero, hm⟩ | ⟨hzero, _, hm⟩ | ⟨hzero, _, hm⟩ <;> simp [hm, hzero]
  · rw [Arithmetic.eval_eq_failed_iff h]
    rcases m.fault?_cases with ⟨hzero, hm⟩ | ⟨hzero, hin, hm⟩ | ⟨hzero, hout, hm⟩ <;>
      simp [*]
  · rw [Arithmetic.eval_eq, Arithmetic.answer] at h
    cases hfirst : a.firstFault? with
    | none =>
      rw [hfirst] at h
      cases h
    | some e' =>
      rw [hfirst] at h
      obtain ⟨rfl, rfl⟩ : e' = e ∧ st = after := by
        cases h
        exact ⟨rfl, rfl⟩
      obtain ⟨m, hm, hfault⟩ := List.exists_of_findSome?_eq_some hfirst
      refine ⟨rfl, m, hm, ?_⟩
      rcases m.fault?_cases with ⟨_, hcase⟩ | ⟨_, _, hcase⟩ | ⟨_, _, hcase⟩
      · exact .inl (Option.some.inj (hfault.symm.trans hcase))
      · cases hfault.symm.trans hcase
      · exact .inr (Option.some.inj (hfault.symm.trans hcase))

/-- The least integer is the difference `-9223372036854775807 - 1`, and what it leaves when it is
divided by `-1` does not exist, which is found before a division by zero further right. -/
theorem arithmetic_is_exact_at_least_integer :
    let difference : Arithmetic := .operation ⟨1, 22⟩ .minus
      (.negation ⟨1, 1⟩ (.literal ⟨1, 2⟩ Int64.maxValue)) (.literal ⟨1, 24⟩ 1)
    let remainder : Arithmetic := .operation ⟨1, 28⟩ .percent difference (.literal ⟨1, 30⟩ (-1))
    let quotient : Arithmetic := .operation ⟨1, 37⟩ .slash (.literal ⟨1, 35⟩ 1) (.literal ⟨1, 39⟩ 0)
    let sum : Arithmetic := .operation ⟨1, 33⟩ .plus remainder quotient
    let st : State := ⟨.initial, .unlimited, 0, none, 0⟩
    (∃ n : Int64, n.toInt = -0x8000000000000000 ∧
      difference.expr.eval (callWithin 0) Heap.root st = .done (.int n) st) ∧
    sum.expr.eval (callWithin 0) Heap.root st = .failed (.overflow ⟨1, 28⟩) st ∧
    quotient.expr.eval (callWithin 0) Heap.root st = .failed (.divisionByZero ⟨1, 37⟩) st := by
  intro difference remainder quotient sum st
  refine ⟨?_, ?_, ?_⟩
  · have hvalue : difference.value = -0x8000000000000000 := by decide
    rw [← hvalue]
    exact (arithmetic_is_exact difference _ _ st).1 (by decide)
  · exact (arithmetic_is_exact sum _ _ st).2.1 remainder.inside remainder _ _ rfl (by decide) rfl
  · exact ((arithmetic_is_exact quotient _ _ st).2.2.1 quotient (by decide)).1.mpr (by decide)

end TwinScript
