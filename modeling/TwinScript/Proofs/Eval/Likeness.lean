import TwinScript.Proofs.Interpreter
import TwinScript.Proofs.Value.Likeness

/-!
# Runs of programs that are alike

Programs that differ in nothing but positions do the same thing at the same time: they print the
same, bind the same names to values that are alike, and fail in the same way at related positions.
`Eval.Like` relates two parts of programs in this sense, from any two states that are alike, and
composes along `do`. States that are alike may have been charged differently where there is no
limit.

* `Expr.eval_alike`, `Stmt.exec_alike`: trees that are alike run alike, if calls and loops do.
* `rules_alike`: calls and loops do, whatever the fuel.
* `runProgram_alike`: so do whole programs.
-/

namespace TwinScript

section

variable (place : Position → Position → Prop) {α β : Type}

/-- The states differ in the positions inside functions only, and in the steps charged if there is
no limit. -/
structure State.Like (st st' : State) : Prop where
  heap : st.heap.Like place st'.heap
  sink_eq : st.sink = st'.sink
  limit?_eq : st.limit? = st'.limit?
  steps_eq : st.limit? = none ∨ st.steps = st'.steps
  depth_eq : st.depth = st'.depth

/-- The outcomes are results related by `R`, or errors that are alike, in states that are alike. -/
inductive Outcome.Like (R : α → β → Prop) : Outcome α → Outcome β → Prop
  | done {a : α} {b : β} {st st' : State} (hab : R a b) (hst : st.Like place st') :
      Outcome.Like R (.done a st) (.done b st')
  | failed {e e' : EvalError} {st st' : State} (he : e.Like place e') (hst : st.Like place st') :
      Outcome.Like R (.failed e st) (.failed e' st')
  | unfinished : Outcome.Like R .unfinished .unfinished
  | crashed : Outcome.Like R .crashed .crashed

/-- From states that are alike, both parts of a program have outcomes that are alike. -/
def Eval.Like (R : α → β → Prop) (m : Eval α) (m' : Eval β) : Prop :=
  ∀ st st', st.Like place st' → (m st).Like place R (m' st')

/-- The ends of statements are the same, with values that are alike if they have any. -/
inductive Flow.Like : Flow → Flow → Prop
  | normal : Flow.Like .normal .normal
  | breaking : Flow.Like .breaking .breaking
  | continuing : Flow.Like .continuing .continuing
  | returning {v v' : Val} (h : v.Like place v') : Flow.Like (.returning v) (.returning v')

/-- The rules call functions that are alike in the same way. -/
def CallRule.Like (call call' : CallRule) : Prop :=
  ∀ {c c' : Closure} {args args' : List Val} {p q : Position}, c.Like place c' →
    List.Forall₂ (Val.Like place) args args' → place p q →
      (call c args p).Like place (Val.Like place) (call' c' args' q)

/-- The rules run loops that are alike in the same way. -/
def LoopRule.Like (loop loop' : LoopRule) : Prop :=
  ∀ (f : FrameId) {p q : Position} {e e' : Option Expr} {s s' : Stmt}, place p q →
    Option.Rel (Expr.Like place) e e' → s.Like place s' →
      (loop f p e s).Like place (Flow.Like place) (loop' f q e' s')

end

variable {place : Position → Position → Prop}

namespace Eval

variable {α β γ δ : Type} {R : α → β → Prop} {S : γ → δ → Prop}

theorem Like.pure {a : α} {b : β} (h : R a b) :
    (Pure.pure a : Eval α).Like place R (Pure.pure b : Eval β) := by
  intro st st' hst
  exact .done h hst

theorem Like.fail {e e' : EvalError} (h : e.Like place e') :
    (Eval.fail e : Eval α).Like place R (Eval.fail e' : Eval β) := by
  intro st st' hst
  exact .failed h hst

theorem Like.bind {m : Eval α} {m' : Eval β} {next : α → Eval γ} {next' : β → Eval δ}
    (hm : m.Like place R m') (hnext : ∀ a b, R a b → (next a).Like place S (next' b)) :
    (m >>= next).Like place S (m' >>= next') := by
  intro st st' hst
  have h := hm st st' hst
  rw [bind_apply, bind_apply]
  generalize m st = o at h ⊢
  generalize m' st' = o' at h ⊢
  cases h with
  | done hab hst => exact hnext _ _ hab _ _ hst
  | failed he hst => exact .failed he hst
  | unfinished => exact .unfinished
  | crashed => exact .crashed

/-- The same is done behind both, also if they fail. -/
theorem Like.alwaysThen {m : Eval α} {m' : Eval β} {last last' : Eval Unit}
    (hm : m.Like place R m') (hlast : last.Like place Eq last') :
    (alwaysThen m last).Like place R (alwaysThen m' last') := by
  intro st st' hst
  have h := hm st st' hst
  unfold Eval.alwaysThen
  generalize m st = o at h ⊢
  generalize m' st' = o' at h ⊢
  cases h with
  | done hab hst => exact hlast.bind (fun _ _ _ => Like.pure hab) _ _ hst
  | failed he hst => exact hlast.bind (fun _ _ _ => Like.fail he) _ _ hst
  | unfinished => exact .unfinished
  | crashed => exact .crashed

/-! ## The effects -/

theorem ofExcept_alike {x : Except EvalError α} {x' : Except EvalError β}
    (h : AnswersAlike (EvalError.Like place) R x x') :
    (Eval.ofExcept x).Like place R (Eval.ofExcept x') := by
  cases h with
  | ok h => exact Like.pure h
  | error h => exact Like.fail h

theorem step_alike {p q : Position} (hpq : place p q) :
    (Eval.step p).Like place Eq (Eval.step q) := by
  rintro ⟨heap, sink, steps, limit?, depth⟩ ⟨heap', sink', steps', limit?', depth'⟩
    ⟨hheap, hsink, hlimit, hsteps, hdepth⟩
  dsimp only at hheap hsink hlimit hsteps hdepth
  subst hsink hlimit hdepth
  unfold Eval.step
  cases limit? with
  | none => exact .done rfl ⟨hheap, rfl, rfl, .inl rfl, rfl⟩
  | some limit =>
    obtain rfl : steps = steps' := hsteps.resolve_left (by simp)
    dsimp only
    split
    · exact .failed (.stepLimitExceeded hpq limit) ⟨hheap, rfl, rfl, .inr rfl, rfl⟩
    · exact .done rfl ⟨hheap, rfl, rfl, .inr rfl, rfl⟩

theorem enterCall_alike {p q : Position} (hpq : place p q) :
    (Eval.enterCall p).Like place Eq (Eval.enterCall q) := by
  rintro st st' ⟨hheap, hsink, hlimit, hsteps, hdepth⟩
  unfold Eval.enterCall
  rw [← hdepth]
  split
  · exact .failed (.callDepthExceeded hpq) ⟨hheap, hsink, hlimit, hsteps, hdepth⟩
  · exact step_alike hpq _ _ ⟨hheap, hsink, hlimit, hsteps, rfl⟩

theorem leaveCall_alike : Eval.leaveCall.Like place Eq Eval.leaveCall := by
  rintro ⟨heap, sink, steps, limit?, depth⟩ ⟨heap', sink', steps', limit?', _⟩
    ⟨hheap, hsink, hlimit, hsteps, rfl⟩
  unfold Eval.leaveCall
  cases depth with
  | zero => exact .crashed
  | succ depth => exact .done rfl ⟨hheap, hsink, hlimit, hsteps, rfl⟩

theorem readName_alike (f : FrameId) {p q : Position} (hpq : place p q) (name : String) :
    (Eval.readName f p name).Like place (Val.Like place) (Eval.readName f q name) := by
  intro st st' hst
  have hv := hst.heap.get? f name
  unfold Eval.readName
  generalize st.heap.get? f name = v? at hv ⊢
  generalize st'.heap.get? f name = v?' at hv ⊢
  cases hv with
  | none => exact .failed (.unboundName hpq name) hst
  | some hv => exact .done hv hst

theorem writeName_alike (f : FrameId) (name : String) {v v' : Val} (hv : v.Like place v') :
    (Eval.writeName f name v).Like place Eq (Eval.writeName f name v') := by
  rintro st st' ⟨hheap, hsink, hlimit, hsteps, hdepth⟩
  exact .done rfl ⟨hheap.bind f name hv, hsink, hlimit, hsteps, hdepth⟩

theorem declare_alike (f : FrameId) (name : String) (params : List String)
    {body body' : List Stmt} (hbody : Stmt.AllLike place body body') :
    (Eval.declare f name params body).Like place Eq (Eval.declare f name params body') := by
  rintro st st' ⟨hheap, hsink, hlimit, hsteps, hdepth⟩
  exact .done rfl ⟨hheap.declare f name params hbody, hsink, hlimit, hsteps, hdepth⟩

/-- New frames have the same number. -/
theorem newFrame_alike (f : FrameId) {bs bs' : Bindings} (hbs : bs.Like place bs') :
    (Eval.newFrame f bs).Like place Eq (Eval.newFrame f bs') := by
  rintro st st' ⟨hheap, hsink, hlimit, hsteps, hdepth⟩
  exact .done hheap.size_eq ⟨hheap.child f hbs, hsink, hlimit, hsteps, hdepth⟩

theorem printLine_alike (text : String) :
    (Eval.printLine text).Like place Eq (Eval.printLine text) := by
  rintro st st' ⟨hheap, hsink, hlimit, hsteps, hdepth⟩
  unfold Eval.printLine
  rw [← hsink]
  rcases st.sink.writeLine text with ⟨_ | cause, sink⟩
  · exact .done rfl ⟨hheap, rfl, hlimit, hsteps, hdepth⟩
  · exact .failed (.output cause) ⟨hheap, rfl, hlimit, hsteps, hdepth⟩

end Eval

/-! ## Expressions -/

theorem Builtin.call_alike (b : Builtin) {args args' : List Val} {p q : Position}
    (hargs : List.Forall₂ (Val.Like place) args args') (hpq : place p q) :
    (b.call args p).Like place (Val.Like place) (b.call args' q) := by
  have hlength := hargs.length_eq
  cases b
  unfold Builtin.call
  cases hargs with
  | nil => exact Eval.Like.fail (.wrongArgumentCount hpq _ _)
  | cons hv hrest =>
    cases hrest with
    | nil =>
      have hnothing : Val.nothing.Like place .nothing := Val.like_of_type (by simp [Val.type])
      dsimp only
      rw [hv.text_eq]
      exact (Eval.printLine_alike _).bind fun _ _ _ => Eval.Like.pure hnothing
    | cons _ _ =>
      dsimp only
      rw [hlength]
      exact Eval.Like.fail (.wrongArgumentCount hpq _ _)

/-- A truth value is alike to itself. -/
theorem Eval.truth_alike (b : Bool) :
    (pure (.bool b) : Eval Val).Like place (Val.Like place) (pure (.bool b)) :=
  Eval.Like.pure (Val.like_of_type (by simp [Val.type]))

mutual

/-- Expressions that are alike are evaluated alike. -/
theorem Expr.eval_alike {call call' : CallRule} (hcall : CallRule.Like place call call')
    (f : FrameId) : (e : Expr) → {e' : Expr} → e.Like place e' →
      (e.eval call f).Like place (Val.Like place) (e'.eval call' f)
  | .literal _ _, _, .literal _ hvalue => Eval.Like.pure (Val.like_ofLiteral hvalue)
  | .var _ _, _, .var hpq name => Eval.readName_alike f hpq name
  | .unary _ _ e, _, .unary hpq op he => by
    unfold Expr.eval
    apply (e.eval_alike hcall f he).bind
    intro x x' hx
    exact Eval.ofExcept_alike (unaryValue_alike hpq op hx)
  | .binary _ _ l r, _, .binary hpq op hl hr => by
    have hright := r.eval_alike hcall f hr
    unfold Expr.eval
    apply (l.eval_alike hcall f hl).bind
    intro x x' hx
    -- the left operand decides alike whether the right one is evaluated
    rw [hx.truthy_eq]
    have htruth : ∀ y y' : Val, y.Like place y' →
        (pure (.bool y.truthy) : Eval Val).Like place (Val.Like place) (pure (.bool y'.truthy)) := by
      intro y y' hy
      rw [hy.truthy_eq]
      exact Eval.truth_alike _
    split
    · split
      · exact Eval.truth_alike true
      · exact hright.bind htruth
    · split
      · split
        · exact hright.bind htruth
        · exact Eval.truth_alike false
      · apply hright.bind
        intro y y' hy
        exact Eval.ofExcept_alike (binaryValue_alike hpq op hx hy)
  | .call _ c args, _, .call hpq hc hargs => by
    have hall := Expr.evalAll_alike hcall f args hargs
    have hlength := hargs.length_eq
    unfold Expr.eval
    apply (c.eval_alike hcall f hc).bind
    intro x x' hx
    cases hx with
    | closure hclosure =>
      dsimp only
      rw [hlength, hclosure.params_eq]
      split
      · exact hall.bind fun vs vs' hvs => hcall hclosure hvs hpq
      · exact Eval.Like.fail (.wrongArgumentCount hpq _ _)
    | plain hx =>
      cases x with
      | closure c => exact absurd rfl (hx c)
      | builtin b => exact hall.bind fun vs vs' hvs => b.call_alike hvs hpq
      | _ => exact Eval.Like.fail (.notCallable hpq _)

/-- Expressions one after the other, likewise. -/
theorem Expr.evalAll_alike {call call' : CallRule} (hcall : CallRule.Like place call call')
    (f : FrameId) : (es : List Expr) → {es' : List Expr} → List.Forall₂ (Expr.Like place) es es' →
      (Expr.evalAll call f es).Like place (List.Forall₂ (Val.Like place))
        (Expr.evalAll call' f es')
  | [], _, .nil => Eval.Like.pure .nil
  | e :: rest, _, .cons he hrest => by
    unfold Expr.evalAll
    apply (e.eval_alike hcall f he).bind
    intro v v' hv
    apply (Expr.evalAll_alike hcall f rest hrest).bind
    intro vs vs' hvs
    exact Eval.Like.pure (.cons hv hvs)

end

/-! ## Statements -/

mutual

/-- Statements that are alike are executed alike. -/
theorem Stmt.exec_alike {call call' : CallRule} {loop loop' : LoopRule}
    (hcall : CallRule.Like place call call') (hloop : LoopRule.Like place loop loop')
    (f : FrameId) : (s : Stmt) → {s' : Stmt} → s.Like place s' →
      (s.exec call loop f).Like place (Flow.Like place) (s'.exec call' loop' f)
  | .expr e, _, .expr he => by
    unfold Stmt.exec
    exact (e.eval_alike hcall f he).bind fun _ _ _ => Eval.Like.pure .normal
  | .assign _ e, _, .assign name he => by
    unfold Stmt.exec
    apply (e.eval_alike hcall f he).bind
    intro v v' hv
    exact (Eval.writeName_alike f name hv).bind fun _ _ _ => Eval.Like.pure .normal
  | .block body, _, .block hbody => by
    unfold Stmt.exec
    apply (Eval.newFrame_alike f .nil).bind
    rintro frame _ rfl
    exact Stmt.execAll_alike hcall hloop frame body hbody
  | .ifThen e s, _, .ifThen he hs => by
    unfold Stmt.exec
    apply (e.eval_alike hcall f he).bind
    intro v v' hv
    rw [hv.truthy_eq]
    split
    · exact s.exec_alike hcall hloop f hs
    · exact Eval.Like.pure .normal
  | .forLoop _ _ _, _, .forLoop hpq he hs => by
    unfold Stmt.exec
    exact hloop f hpq he hs
  | .breakLoop, _, .breakLoop => Eval.Like.pure .breaking
  | .continueLoop, _, .continueLoop => Eval.Like.pure .continuing
  | .returnValue _, _, .returnValue he => by
    cases he with
    | none =>
      exact Eval.Like.pure (.returning (Val.like_of_type (by simp [Val.type])))
    | some he =>
      unfold Stmt.exec
      apply (Expr.eval_alike hcall f _ he).bind
      intro v v' hv
      exact Eval.Like.pure (.returning hv)
  | .function _ _ _, _, .function name params hbody => by
    unfold Stmt.exec
    apply (Eval.declare_alike f name params hbody).bind
    intro _ _ _
    exact Eval.Like.pure .normal

/-- Statements one after the other, likewise. -/
theorem Stmt.execAll_alike {call call' : CallRule} {loop loop' : LoopRule}
    (hcall : CallRule.Like place call call') (hloop : LoopRule.Like place loop loop')
    (f : FrameId) : (body : List Stmt) → {body' : List Stmt} → Stmt.AllLike place body body' →
      (Stmt.execAll call loop f body).Like place (Flow.Like place)
        (Stmt.execAll call' loop' f body')
  | [], _, .nil => Eval.Like.pure .normal
  | s :: rest, _, .cons hs hrest => by
    unfold Stmt.execAll
    apply (s.exec_alike hcall hloop f hs).bind
    intro flow flow' hflow
    cases hflow with
    | normal => exact Stmt.execAll_alike hcall hloop f rest hrest
    | breaking => exact Eval.Like.pure .breaking
    | continuing => exact Eval.Like.pure .continuing
    | returning hv => exact Eval.Like.pure (.returning hv)

end

/-! ## Calls and loops -/

theorem Flow.callResult_alike {flow flow' : Flow} (h : flow.Like place flow') :
    flow.callResult.Like place (Val.Like place) flow'.callResult := by
  cases h with
  | normal => exact Eval.Like.pure (Val.like_of_type (by simp [Val.type]))
  | breaking => exact Eval.Like.fail (.strayControl _)
  | continuing => exact Eval.Like.fail (.strayControl _)
  | returning hv => exact Eval.Like.pure hv

theorem loopCondition_alike {call call' : CallRule} (hcall : CallRule.Like place call call')
    (f : FrameId) {e e' : Option Expr} (he : Option.Rel (Expr.Like place) e e') :
    (loopCondition call f e).Like place Eq (loopCondition call' f e') := by
  cases he with
  | none => exact Eval.Like.pure rfl
  | some he =>
    apply (Expr.eval_alike hcall f _ he).bind
    intro v v' hv
    exact Eval.Like.pure hv.truthy_eq

/-- Whatever the fuel, functions that are alike are called alike, and loops that are alike run
alike. -/
theorem rules_alike (fuel : Nat) :
    CallRule.Like place (callWithin fuel) (callWithin fuel) ∧
      LoopRule.Like place (loopWithin fuel) (loopWithin fuel) := by
  induction fuel with
  | zero =>
    constructor
    · intro c c' args args' p q _ _ _ st st' _
      exact .unfinished
    · intro f p q e e' s s' _ _ _ st st' _
      exact .unfinished
  | succ fuel ih =>
    obtain ⟨hcall, hloop⟩ := ih
    constructor
    · intro c c' args args' p q hc hargs hpq
      unfold callWithin
      apply (Eval.enterCall_alike hpq).bind
      intro _ _ _
      rw [hc.scope_eq, hc.params_eq]
      refine Eval.Like.alwaysThen ?_ Eval.leaveCall_alike
      apply (Eval.newFrame_alike _ (Bindings.like_ofArguments _ hargs)).bind
      rintro frame _ rfl
      apply (Stmt.execAll_alike hcall hloop frame _ hc.body).bind
      intro flow flow' hflow
      exact Flow.callResult_alike hflow
    · intro f p q e e' s s' hpq he hs
      unfold loopWithin
      apply (loopCondition_alike hcall f he).bind
      rintro holds _ rfl
      split
      · apply (Eval.step_alike hpq).bind
        intro _ _ _
        apply (Stmt.exec_alike hcall hloop f s hs).bind
        intro flow flow' hflow
        cases hflow with
        | normal => exact hloop f hpq he hs
        | breaking => exact Eval.Like.pure .normal
        | continuing => exact hloop f hpq he hs
        | returning hv => exact Eval.Like.pure (.returning hv)
      · exact Eval.Like.pure .normal

/-! ## Programs -/

/-- Programs that are alike run alike. -/
theorem runProgram_alike (fuel : Nat) {program program' : List Stmt}
    (h : Stmt.AllLike place program program') :
    (runProgram fuel program).Like place (Option.Rel (Val.Like place))
      (runProgram fuel program') := by
  obtain ⟨hcall, hloop⟩ := @rules_alike place fuel
  induction h with
  | nil => exact Eval.Like.pure .none
  | @cons s s' rest rest' hs hrest ih =>
    by_cases hlast : ∃ e, s = .expr e ∧ rest = []
    · obtain ⟨e, rfl, rfl⟩ := hlast
      cases hs with
      | expr he =>
        cases hrest
        apply (Expr.eval_alike hcall Heap.root e he).bind
        intro v v' hv
        exact Eval.Like.pure (.some hv)
    · have hlast' : ¬ ∃ e, s' = .expr e ∧ rest' = [] := by
        rintro ⟨e, rfl, rfl⟩
        cases hs
        cases hrest
        exact hlast ⟨_, rfl, rfl⟩
      rw [(runProgram_cons fuel s rest).resolve_left hlast,
        (runProgram_cons fuel s' rest').resolve_left hlast']
      apply (Stmt.exec_alike hcall hloop Heap.root s hs).bind
      intro flow flow' hflow
      cases hflow with
      | normal => exact ih
      | breaking => exact Eval.Like.fail (.strayControl _)
      | continuing => exact Eval.Like.fail (.strayControl _)
      | returning _ => exact Eval.Like.fail (.strayControl _)

/-! ## Interpreters -/

section

variable (place : Position → Position → Prop)

/-- The interpreters differ in the positions inside functions only. -/
structure Interpreter.Like (it it' : Interpreter) : Prop where
  heap : it.heap.Like place it'.heap
  sink_eq : it.sink = it'.sink
  limit?_eq : it.limit? = it'.limit?

/-- The errors are of the same kind, and name related positions or none. -/
inductive ProgramError.Like : ProgramError → ProgramError → Prop
  | scan {e e' : ScanError} (h : e.fault = e'.fault) (hpos : place e.pos e'.pos) :
      ProgramError.Like (.scan e) (.scan e')
  | parse {e e' : ParseError} (h : e.fault = e'.fault) (hpos : Option.Rel place e.pos? e'.pos?) :
      ProgramError.Like (.parse e) (.parse e')
  | eval {e e' : EvalError} (h : e.Like place e') : ProgramError.Like (.eval e) (.eval e')

/-- Both runs end or neither does; if they do, their answers are alike, and the interpreters
afterwards are. -/
def Ending.Like {ε ε' α β : Type} (E : ε → ε' → Prop) (R : α → β → Prop) :
    Ending ε α → Ending ε' β → Prop :=
  Option.Rel fun end₁ end₂ => AnswersAlike E R end₁.1 end₂.1 ∧ end₁.2.Like place end₂.2

end

theorem Interpreter.Like.start {it it' : Interpreter} (h : it.Like place it') :
    it.start.Like place it'.start :=
  ⟨h.heap, h.sink_eq, h.limit?_eq, .inr rfl, rfl⟩

/-- A flush fails behind both or behind neither. -/
theorem Sink.answerAfterFlush_alike {α β : Type} {R : α → β → Prop} (sink : Sink)
    {x : Except EvalError α} {x' : Except EvalError β}
    (h : AnswersAlike (EvalError.Like place) R x x') :
    AnswersAlike (EvalError.Like place) R (sink.answerAfterFlush x) (sink.answerAfterFlush x') := by
  unfold answerAfterFlush
  cases sink.flush with
  | none => exact h
  | some cause => exact .error (.output cause)

/-- Outcomes that are alike are the ends of executions that are alike. -/
theorem Outcome.Like.ending {α β : Type} {R : α → β → Prop} {o : Outcome α} {o' : Outcome β}
    (h : o.Like place R o') {it it' : Interpreter} (hlimit : it.limit? = it'.limit?) :
    Ending.Like place (EvalError.Like place) R
      (o.answer?.map fun (answer, st) => (st.sink.answerAfterFlush answer, it.resume st))
      (o'.answer?.map fun (answer, st) => (st.sink.answerAfterFlush answer, it'.resume st)) := by
  have hafter {st st' : State} (hst : st.Like place st') :
      (it.resume st).Like place (it'.resume st') := ⟨hst.heap, hst.sink_eq, hlimit⟩
  cases h with
  | done hab hst =>
    refine .some ⟨?_, hafter hst⟩
    dsimp only
    rw [hst.sink_eq]
    exact Sink.answerAfterFlush_alike _ (.ok hab)
  | failed he hst =>
    refine .some ⟨?_, hafter hst⟩
    dsimp only
    rw [hst.sink_eq]
    exact Sink.answerAfterFlush_alike _ (.error he)
  | unfinished => exact .none
  | crashed => exact .none

/-- Programs that are alike are executed alike by interpreters that are alike. -/
theorem Interpreter.executeWithin_alike (fuel : Nat) {it it' : Interpreter}
    (hit : it.Like place it') {program program' : List Stmt}
    (h : Stmt.AllLike place program program') :
    Ending.Like place (EvalError.Like place) (Option.Rel (Val.Like place))
      (it.executeWithin fuel program) (it'.executeWithin fuel program') := by
  have hrun := runProgram_alike fuel h _ _ hit.start
  rw [executeWithin_eq, executeWithin_eq]
  exact hrun.ending hit.limit?_eq

/-- Programs that are executed alike are run alike as texts. -/
theorem Ending.Like.ofProgram {α β : Type} {R : α → β → Prop} {x : Ending EvalError α}
    {x' : Ending EvalError β} (h : Ending.Like place (EvalError.Like place) R x x') :
    Ending.Like place (ProgramError.Like place) R
      (x.map fun (answer, after) => (answer.mapError ProgramError.eval, after))
      (x'.map fun (answer, after) => (answer.mapError ProgramError.eval, after)) :=
  Option.Rel.map h fun _ _ h => ⟨h.1.mapError fun _ _ he => .eval he, h.2⟩

/-- Texts that are read alike run alike, in interpreters that are alike. -/
theorem Interpreter.runWithin_alike (fuel : Nat) {it it' : Interpreter} (hit : it.Like place it')
    {code code' : String}
    (h : AnswersAlike (ProgramError.Like place) (Stmt.AllLike place) (readProgram code)
      (readProgram code')) :
    Ending.Like place (ProgramError.Like place) (Option.Rel (Val.Like place))
      (it.runWithin fuel code) (it'.runWithin fuel code') := by
  generalize hread : readProgram code = read at h
  generalize hread' : readProgram code' = read' at h
  cases h with
  | error he =>
    rw [runWithin_of_error hread, runWithin_of_error hread']
    exact .some ⟨.error he, hit⟩
  | ok hprogram =>
    rw [runWithin_of_ok hread, runWithin_of_ok hread']
    exact (executeWithin_alike fuel hit hprogram).ofProgram

theorem Interpreter.like_self (it : Interpreter) (h : ∀ p, it.heap.Holds p → place p p) :
    it.Like place it :=
  ⟨it.heap.like_self h, rfl, rfl⟩

end TwinScript
