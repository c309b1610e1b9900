import TwinScript.Proofs.Interpreter

/-!
# More fuel changes no end

Fuel is there to make the evaluator total, and no part of what a program means: a part of a program
that ends within some fuel ends in the same way within more. `Eval.ExtendedBy` compares two parts of
programs in this sense, and composes along `do`.

* `rules_extended`: more fuel extends calls and loops.
* `Interpreter.executeWithin_extended`: a program that was executed within some fuel is executed in
  the same way within more.
-/

namespace TwinScript

/-- Wherever the first part of a program ends, the second ends in the same way. -/
def Eval.ExtendedBy {α : Type} (m m' : Eval α) : Prop :=
  ∀ st, m st ≠ .unfinished → m' st = m st

/-- Wherever the first rule lets a call end, the second lets it end in the same way. -/
def CallRule.ExtendedBy (call call' : CallRule) : Prop :=
  ∀ c args pos, (call c args pos).ExtendedBy (call' c args pos)

/-- Wherever the first rule lets a loop end, the second lets it end in the same way. -/
def LoopRule.ExtendedBy (loop loop' : LoopRule) : Prop :=
  ∀ f pos condition body, (loop f pos condition body).ExtendedBy (loop' f pos condition body)

namespace Eval

variable {α β : Type}

/-- A part that does not depend on fuel is extended by itself. -/
theorem ExtendedBy.refl (m : Eval α) : m.ExtendedBy m :=
  fun _ _ => rfl

/-- Where nothing has ended, anything may. -/
theorem ExtendedBy.unfinished (m : Eval α) : ExtendedBy (fun _ => .unfinished) m :=
  fun _ h => absurd rfl h

/-- If the whole ends, so did its first part; the second begins where that one ended. -/
theorem ExtendedBy.bind {m m' : Eval α} {next next' : α → Eval β} (hm : m.ExtendedBy m')
    (hnext : ∀ a, (next a).ExtendedBy (next' a)) : (m >>= next).ExtendedBy (m' >>= next') := by
  intro st h
  rw [bind_apply] at h ⊢
  rw [bind_apply]
  cases hr : m st with
  | done a mid =>
    rw [hr] at h
    rw [hm st (by simp [hr]), hr]
    exact hnext a mid h
  | failed e mid => rw [hm st (by simp [hr]), hr]
  | crashed => rw [hm st (by simp [hr]), hr]
  | unfinished =>
    rw [hr] at h
    exact absurd rfl h

/-- A call is entered and left alike; only its body may take fuel. -/
theorem ExtendedBy.insideCall {m m' : Eval α} (hm : m.ExtendedBy m') (pos : Position) :
    (insideCall pos m).ExtendedBy (insideCall pos m') := by
  refine (ExtendedBy.refl (enterCall pos)).bind fun _ st h => ?_
  unfold alwaysThen at h ⊢
  by_cases hends : m st = .unfinished
  · rw [hends] at h
    exact absurd rfl h
  · rw [hm st hends]

end Eval

/-! ## Expressions and statements -/

section

variable {call call' : CallRule} {loop loop' : LoopRule}

mutual

/-- Expressions take fuel only in the calls they make. -/
theorem Expr.eval_extended (hcall : call.ExtendedBy call') (f : FrameId) :
    ∀ e : Expr, (e.eval call f).ExtendedBy (e.eval call' f)
  | .literal _ value => by
    rw [Expr.eval, Expr.eval]
    exact .refl _
  | .var pos name => by
    rw [Expr.eval, Expr.eval]
    exact .refl _
  | .unary pos op operand => by
    rw [Expr.eval, Expr.eval]
    exact (Expr.eval_extended hcall f operand).bind fun _ => .refl _
  | .binary pos op left right => by
    rw [Expr.eval, Expr.eval]
    have hright := Expr.eval_extended hcall f right
    apply (Expr.eval_extended hcall f left).bind
    intro l
    split
    · split
      · exact .refl _
      · exact hright.bind fun _ => .refl _
    · split
      · split
        · exact hright.bind fun _ => .refl _
        · exact .refl _
      · exact hright.bind fun _ => .refl _
  | .call pos callee args => by
    rw [Expr.eval, Expr.eval]
    have hargs := Expr.evalAll_extended hcall f args
    apply (Expr.eval_extended hcall f callee).bind
    intro v
    split
    · split
      · exact hargs.bind fun values => hcall _ values pos
      · exact .refl _
    · exact hargs.bind fun _ => .refl _
    · exact .refl _

/-- Arguments are evaluated one after the other, each as it would be alone. -/
theorem Expr.evalAll_extended (hcall : call.ExtendedBy call') (f : FrameId) :
    ∀ es : List Expr, (Expr.evalAll call f es).ExtendedBy (Expr.evalAll call' f es)
  | [] => by
    rw [Expr.evalAll, Expr.evalAll]
    exact .refl _
  | e :: rest => by
    rw [Expr.evalAll, Expr.evalAll]
    apply (Expr.eval_extended hcall f e).bind
    intro v
    exact (Expr.evalAll_extended hcall f rest).bind fun _ => .refl _

end

mutual

/-- Statements take fuel only in calls and in loops. -/
theorem Stmt.exec_extended (hcall : call.ExtendedBy call') (hloop : loop.ExtendedBy loop')
    (f : FrameId) : ∀ s : Stmt, (s.exec call loop f).ExtendedBy (s.exec call' loop' f)
  | .expr e => by
    rw [Stmt.exec, Stmt.exec]
    exact (Expr.eval_extended hcall f e).bind fun _ => .refl _
  | .assign name value => by
    rw [Stmt.exec, Stmt.exec]
    exact (Expr.eval_extended hcall f value).bind fun _ => .refl _
  | .block body => by
    rw [Stmt.exec, Stmt.exec]
    exact (Eval.ExtendedBy.refl _).bind fun frame => Stmt.execAll_extended hcall hloop frame body
  | .ifThen condition body => by
    rw [Stmt.exec, Stmt.exec]
    apply (Expr.eval_extended hcall f condition).bind
    intro v
    split
    · exact Stmt.exec_extended hcall hloop f body
    · exact .refl _
  | .forLoop pos condition body => by
    rw [Stmt.exec, Stmt.exec]
    exact hloop f pos condition body
  | .breakLoop => by
    rw [Stmt.exec, Stmt.exec]
    exact .refl _
  | .continueLoop => by
    rw [Stmt.exec, Stmt.exec]
    exact .refl _
  | .returnValue none => by
    rw [Stmt.exec, Stmt.exec]
    exact .refl _
  | .returnValue (some value) => by
    rw [Stmt.exec, Stmt.exec]
    exact (Expr.eval_extended hcall f value).bind fun _ => .refl _
  | .function name params body => by
    rw [Stmt.exec, Stmt.exec]
    exact .refl _

/-- A list ends where one of its statements ends it, or behind the last of them. -/
theorem Stmt.execAll_extended (hcall : call.ExtendedBy call') (hloop : loop.ExtendedBy loop')
    (f : FrameId) :
    ∀ body : List Stmt, (Stmt.execAll call loop f body).ExtendedBy (Stmt.execAll call' loop' f body)
  | [] => by
    rw [Stmt.execAll, Stmt.execAll]
    exact .refl _
  | s :: rest => by
    rw [Stmt.execAll, Stmt.execAll]
    apply (Stmt.exec_extended hcall hloop f s).bind
    intro flow
    split
    · exact Stmt.execAll_extended hcall hloop f rest
    · exact .refl _

end

/-- A condition is an expression, or there is none. -/
theorem loopCondition_extended (hcall : call.ExtendedBy call') (f : FrameId)
    (condition : Option Expr) :
    (loopCondition call f condition).ExtendedBy (loopCondition call' f condition) := by
  cases condition with
  | none => exact .refl _
  | some e => exact (Expr.eval_extended hcall f e).bind fun _ => .refl _

end

/-! ## Calls, loops and programs -/

/-- More fuel extends calls and loops. -/
theorem rules_extended (fuel more : Nat) :
    (callWithin fuel).ExtendedBy (callWithin (fuel + more)) ∧
      (loopWithin fuel).ExtendedBy (loopWithin (fuel + more)) := by
  induction fuel with
  | zero =>
    constructor
    · intro c args pos
      rw [callWithin]
      exact .unfinished _
    · intro f pos condition body
      rw [loopWithin]
      exact .unfinished _
  | succ fuel ih =>
    obtain ⟨hcall, hloop⟩ := ih
    rw [Nat.add_right_comm]
    constructor
    · intro c args pos
      rw [callWithin, callWithin]
      refine Eval.ExtendedBy.insideCall ((Eval.ExtendedBy.refl _).bind fun frame => ?_) pos
      exact (Stmt.execAll_extended hcall hloop frame c.body).bind fun _ => .refl _
    · intro f pos condition body
      rw [loopWithin, loopWithin]
      apply (loopCondition_extended hcall f condition).bind
      intro again
      split
      · refine (Eval.ExtendedBy.refl _).bind fun _ => ?_
        apply (Stmt.exec_extended hcall hloop f body).bind
        intro flow
        split
        · exact .refl _
        · exact .refl _
        · exact hloop f pos condition body
      · exact .refl _

/-- More fuel extends programs. -/
theorem runProgram_extended (fuel more : Nat) (program : List Stmt) :
    (runProgram fuel program).ExtendedBy (runProgram (fuel + more) program) := by
  obtain ⟨hcall, hloop⟩ := rules_extended fuel more
  induction program with
  | nil => exact .refl _
  | cons s rest ih =>
    by_cases hlast : ∃ e, s = .expr e ∧ rest = []
    · obtain ⟨e, rfl, rfl⟩ := hlast
      rw [runProgram, runProgram]
      exact (Expr.eval_extended hcall Heap.root e).bind fun _ => .refl _
    · rw [(runProgram_cons fuel s rest).resolve_left hlast,
        (runProgram_cons (fuel + more) s rest).resolve_left hlast]
      apply (Stmt.exec_extended hcall hloop Heap.root s).bind
      intro flow
      cases flow with
      | normal => exact ih
      | _ => exact .refl _

/-- A program that was executed within some fuel is executed in the same way within more. -/
theorem Interpreter.executeWithin_extended {fuel : Nat} {it : Interpreter} {program : List Stmt}
    {ending : Except EvalError (Option Val) × Interpreter}
    (h : it.executeWithin fuel program = some ending) (more : Nat) :
    it.executeWithin (fuel + more) program = some ending := by
  rw [executeWithin_eq] at h ⊢
  have hends : runProgram fuel program it.start ≠ .unfinished := by
    intro hnot
    rw [hnot] at h
    cases h
  rw [runProgram_extended fuel more program _ hends]
  exact h

end TwinScript
