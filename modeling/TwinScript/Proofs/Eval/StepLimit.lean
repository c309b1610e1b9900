import TwinScript.Proofs.Eval.Restriction

/-!
# A step limit only cuts a run short

Two runs of one program are compared that differ in their step limit. As long as no more steps are
charged than the smaller limit allows, they are the same run; the first step beyond it ends the run
under the smaller limit, and all that the other one still does is to print more and to be charged
more.

* `Eval.Built.reportsOwnLimit`: the limit that a run reports as exceeded is its own.
* `Eval.Built.cutShort`: the two runs agree, or one is cut short.
* `step_limit_only_cuts`: the same of whole programs, and when it is which.
-/

namespace TwinScript

namespace Eval

/-- If the part of a program reports an exceeded step limit, it reports its own. -/
def ReportsOwnLimit {α : Type} (m : Eval α) : Prop :=
  ∀ st st' pos limit, m st = .failed (.stepLimitExceeded pos limit) st' → st.limit? = some limit

theorem ReportsOwnLimit.bind {α β : Type} {m : Eval α} {next : α → Eval β}
    (hm : m.ReportsOwnLimit) (hgrows : m.Grows) (hnext : ∀ a, (next a).ReportsOwnLimit) :
    (m >>= next).ReportsOwnLimit := by
  intro st st' pos limit h
  rw [bind_apply] at h
  cases hr : m st with
  | done a mid =>
    rw [hr] at h
    have hmid : st.Grows mid := hgrows st mid (by rw [hr]; rfl)
    rw [← hmid.limit?_eq]
    exact hnext a mid st' pos limit h
  | failed e mid =>
    rw [hr] at h
    cases h
    exact hm st st' pos limit hr
  | unfinished | crashed =>
    rw [hr] at h
    cases h

/-- Leaving a function reports nothing, so behind its body the same is reported as there. -/
theorem ReportsOwnLimit.thenLeave {α : Type} {m : Eval α} (hm : m.ReportsOwnLimit) :
    (alwaysThen m leaveCall).ReportsOwnLimit := by
  intro st st' pos limit h
  rw [alwaysThen_leaveCall] at h
  have hown := hm st
  cases hr : m st with
  | done a mid =>
    rw [hr, Outcome.leave] at h
    split at h <;> cases h
  | failed e mid =>
    rw [hr, Outcome.leave] at h
    split at h
    · cases h
    · cases h
      exact hown mid pos limit hr
  | unfinished | crashed =>
    rw [hr] at h
    cases h

theorem ReportsOwnLimit.pure {α : Type} (a : α) : (Pure.pure a : Eval α).ReportsOwnLimit := by
  rintro st st' pos limit ⟨⟩

theorem step_reportsOwnLimit (pos : Position) : (step pos).ReportsOwnLimit := by
  intro st st' pos' limit h
  unfold step at h
  cases hl : st.limit? with
  | none =>
    rw [hl] at h
    cases h
  | some limit' =>
    rw [hl] at h
    dsimp only at h
    split at h
    · cases h
      rfl
    · cases h

theorem enterCall_reportsOwnLimit (pos : Position) : (enterCall pos).ReportsOwnLimit := by
  intro st st' pos' limit h
  unfold Eval.enterCall at h
  split at h
  · cases h
  · have hown := step_reportsOwnLimit pos _ _ _ _ h
    exact hown

/-- A run that reports an exceeded step limit reports its own. -/
theorem Built.reportsOwnLimit {α : Type} {m : Eval α} (hm : m.Built) : m.ReportsOwnLimit := by
  induction hm with
  | result a => exact .pure a
  | fail he =>
    rintro st st' pos limit ⟨⟩
    cases he
  | unfinished => rintro st st' pos limit ⟨⟩
  | bind hm _ ihm ihnext => exact ihm.bind hm.grows ihnext
  | step pos => exact step_reportsOwnLimit pos
  | insideCall _ pos ih =>
    exact (enterCall_reportsOwnLimit pos).bind (enterCall_grows pos) fun _ => ih.thenLeave
  | readName f pos name =>
    intro st st' pos' limit h
    unfold Eval.readName at h
    split at h <;> cases h
  | writeName f name v => rintro st st' pos limit ⟨⟩
  | declare f name params body => rintro st st' pos limit ⟨⟩
  | newFrame f bindings => rintro st st' pos limit ⟨⟩
  | printLine text =>
    intro st st' pos limit h
    unfold Eval.printLine at h
    rcases hw : st.sink.writeLine text with ⟨_ | cause, sink⟩ <;>
    · rw [hw] at h
      cases h

end Eval

/-! ## Two limits -/

/-- The same state with another limit. -/
def State.limitedTo (st : State) (limit : Nat) : State := { st with limit? := some limit }

/-- The same outcome, in a state with another limit. -/
def Outcome.limitedTo {α : Type} (limit : Nat) : Outcome α → Outcome α
  | .done a st => .done a (st.limitedTo limit)
  | .failed e st => .failed e (st.limitedTo limit)
  | .unfinished => .unfinished
  | .crashed => .crashed

theorem Outcome.mapState_limitedTo {α : Type} (limit : Nat) (o : Outcome α) :
    o.mapState (·.limitedTo limit) = o.limitedTo limit := by
  cases o <;> rfl

/-- The first outcome exceeds the limit, and the second goes beyond it: it was charged more steps
than the limit allows, and printed what the first printed and perhaps more. -/
def Outcome.CutAt {α : Type} (limit : Nat) (cut whole : Outcome α) : Prop :=
  ∃ pos st, cut = .failed (.stepLimitExceeded pos limit) st ∧
    ∀ st', whole.state? = some st' → limit < st'.steps ∧ st.sink.IsStartOf st'.sink

/-- The first outcome is the second, which was charged no more than the limit allows, or it is cut
short. -/
def Outcome.SameOrCut {α : Type} (limit : Nat) (o whole : Outcome α) : Prop :=
  (o = whole.limitedTo limit ∧ ∀ st', whole.state? = some st' → st'.steps ≤ limit) ∨
    o.CutAt limit whole

/-- The limit is not above the limit of the state. -/
def State.Allows (st : State) (limit : Nat) : Prop := ∀ wider, st.limit? = some wider → limit ≤ wider

namespace Eval

variable {limit : Nat}

/-- Within a limit, the part of a program is the same under that limit, until it is cut short. -/
def CutShort (limit : Nat) {α : Type} (m : Eval α) : Prop :=
  ∀ st, st.steps ≤ limit → st.Allows limit → (m (st.limitedTo limit)).SameOrCut limit (m st)

end Eval

/-- A smaller limit as less room: it is used up by the steps charged. -/
def Restriction.toLimit (limit : Nat) : Restriction where
  restrict st := st.limitedTo limit
  Fits st := st.steps ≤ limit ∧ st.Allows limit
  Stops e := ∃ pos, e = .stepLimitExceeded pos limit
  Beyond cut st := limit < st.steps ∧ cut.sink.IsStartOf st.sink
  beyond_of_grows h hgrows :=
    ⟨Nat.lt_of_lt_of_le h.1 hgrows.steps_le, h.2.trans hgrows.sink.written⟩
  beyond_depth h _ _ := h
  restrict_heap _ _ := rfl
  restrict_depth _ _ := rfl
  fits_heap h _ := h
  fits_depth h _ := h

namespace Eval

variable {limit : Nat}

/-- The first step beyond the limit is the one that is cut. -/
theorem step_cutByLimit (pos : Position) : (Restriction.toLimit limit).Cuts (step pos) := by
  rintro st ⟨-, hallows⟩
  by_cases hover : limit < st.steps + 1
  · refine .inr ⟨_, { st.limitedTo limit with steps := st.steps + 1 }, ?_, ⟨pos, rfl⟩,
      fun st' h => ?_⟩
    · simp [step, Restriction.toLimit, State.limitedTo, hover]
    · rw [step_state h]
      exact ⟨hover, .refl _⟩
  · have hleft : step pos (st.limitedTo limit) =
        .done () { st.limitedTo limit with steps := st.steps + 1 } := by
      simp [step, State.limitedTo, hover]
    have hright : step pos st = .done () { st with steps := st.steps + 1 } := by
      unfold step
      cases hl : st.limit? with
      | none => rfl
      | some wider =>
        have := hallows wider hl
        dsimp only
        rw [if_neg (by omega)]
    refine .inl ⟨?_, fun st' h => ?_⟩
    · rw [hright]
      exact hleft
    · rw [step_state h]
      exact ⟨Nat.le_of_not_lt hover, hallows⟩

/-- Printing takes no notice of the limit. -/
theorem printLine_cutByLimit (text : String) :
    (Restriction.toLimit limit).Cuts (printLine text) := by
  refine .of_blind (fun st => ?_) fun st st' hst h => ?_
  · unfold Eval.printLine Restriction.toLimit State.limitedTo
    dsimp only
    rcases st.sink.writeLine text with ⟨_ | cause, sink⟩ <;> rfl
  · rw [printLine_state h]
    exact hst

/-- **Two limits, one run.** Under a smaller limit a run is the same until it is cut short. -/
theorem Built.cutShort {α : Type} {m : Eval α} (hm : m.Built) : m.CutShort limit := by
  intro st hsteps hallows
  rcases hm.cuts step_cutByLimit printLine_cutByLimit st ⟨hsteps, hallows⟩ with
    ⟨hsame, hfits⟩ | ⟨e, cut, hcut, ⟨pos, rfl⟩, hbeyond⟩
  · refine .inl ⟨?_, fun st' h => (hfits st' h).1⟩
    rw [← Outcome.mapState_limitedTo]
    exact hsame
  · exact .inr ⟨pos, cut, hcut, hbeyond⟩

end Eval

/-! ## Interpreters -/

/-- How many steps a run of a program is charged for, if it ends. -/
def Interpreter.charged? (fuel : Nat) (it : Interpreter) (program : List Stmt) : Option Nat :=
  (runProgram fuel program it.start).state?.map (·.steps)

theorem Outcome.answer?_limitedTo {α : Type} {o : Outcome α} {answer : Except EvalError α}
    {st : State} (h : o.answer? = some (answer, st)) (limit : Nat) :
    (o.limitedTo limit).answer? = some (answer, st.limitedTo limit) := by
  rw [← mapState_limitedTo]
  exact answer?_mapState h _

/-- An interpreter reports no limit as exceeded but its own. -/
theorem Interpreter.limit_of_executeWithin {it after : Interpreter} {fuel limit : Nat}
    {program : List Stmt} {pos : Position} (hflush : it.sink.flushFails = false)
    (h : it.executeWithin fuel program = some (.error (.stepLimitExceeded pos limit), after)) :
    it.limit? = some limit := by
  obtain ⟨st, hanswer, -, -⟩ := answer_of_executeWithin hflush h
  rcases Outcome.answer?_eq_some hanswer with ⟨v, -, hv⟩ | ⟨e, hfailed, he⟩
  · cases hv
  · cases he
    exact (runProgram_built fuel program).reportsOwnLimit _ _ _ _ hfailed

/-- **A step limit only cuts a run short.** Where a run under a wider limit, or under none, ends,
the run under the smaller limit ends too. It has the same answer, output and frames exactly if the
other was charged no more steps than the smaller limit allows. If it was charged more, the smaller
limit is exceeded, and what was printed until then is the beginning of what the other prints. -/
theorem step_limit_only_cuts {it after : Interpreter} {fuel limit : Nat} {wider? : Option Nat}
    {program : List Stmt} {answer : Except EvalError (Option Val)}
    (hwider : ∀ wider, wider? = some wider → limit < wider)
    (hflush : it.sink.flushFails = false)
    (hrun : { it with limit? := wider? }.executeWithin fuel program = some (answer, after)) :
    ∃ steps answer' after',
      Interpreter.charged? fuel { it with limit? := wider? } program = some steps ∧
      { it with limit? := some limit }.executeWithin fuel program = some (answer', after') ∧
      ((answer' = answer ∧ after'.sink = after.sink ∧ after'.heap = after.heap) ↔
        steps ≤ limit) ∧
      (limit < steps →
        (∃ pos, answer' = .error (.stepLimitExceeded pos limit)) ∧
          after'.sink.IsStartOf after.sink) := by
  let wide : Interpreter := { it with limit? := wider? }
  let narrow : Interpreter := { it with limit? := some limit }
  have hnarrowflush : narrow.sink.flushFails = false := hflush
  -- the run under the wider limit, without the flush behind it
  obtain ⟨st, hanswer, rfl, -⟩ := @Interpreter.answer_of_executeWithin _ wide _ _ hflush _ hrun
  have hstate : (runProgram fuel program wide.start).state? = some st :=
    Outcome.state?_of_answer? hanswer
  have hcharged : Interpreter.charged? fuel wide program = some st.steps := by
    unfold Interpreter.charged?
    rw [hstate]
    rfl
  have hallows : wide.start.Allows limit := fun wider h => Nat.le_of_lt (hwider wider h)
  have hcases : (runProgram fuel program narrow.start).SameOrCut limit
      (runProgram fuel program wide.start) :=
    (runProgram_built fuel program).cutShort wide.start (Nat.zero_le limit) hallows
  rcases hcases with ⟨hsame, hwithin⟩ | ⟨pos, cut, hcut, hover⟩
  · -- the two runs are the same
    have hlimited := Outcome.answer?_limitedTo hanswer limit
    rw [← hsame] at hlimited
    have hnarrow := Interpreter.executeWithin_of_answer hnarrowflush hlimited
    have hle : st.steps ≤ limit := hwithin st hstate
    refine ⟨st.steps, answer, _, hcharged, hnarrow, ⟨fun _ => hle, fun _ => ⟨rfl, rfl, rfl⟩⟩, ?_⟩
    intro hlt
    omega
  · -- the run under the smaller limit is cut short
    have hcutanswer : (runProgram fuel program narrow.start).answer? =
        some (.error (.stepLimitExceeded pos limit), cut) := by
      rw [hcut]
      rfl
    have hnarrow := Interpreter.executeWithin_of_answer hnarrowflush hcutanswer
    obtain ⟨hlt, hstart⟩ := hover st hstate
    refine ⟨st.steps, _, _, hcharged, hnarrow, ⟨fun hsame => ?_, fun hle => ?_⟩,
      fun _ => ⟨⟨pos, rfl⟩, hstart⟩⟩
    · -- the wider run cannot report the smaller limit as exceeded
      exfalso
      obtain ⟨rfl, -, -⟩ := hsame
      have hown : wider? = some limit :=
        @Interpreter.limit_of_executeWithin wide _ _ _ _ _ hflush hrun
      exact Nat.lt_irrefl limit (hwider limit hown)
    · omega

/-- A loop that prints and never ends is cut short by every limit. -/
theorem step_limit_cuts_endless_loop :
    let mark : Expr := .literal .start (.str "tick")
    let program : List Stmt :=
      [.forLoop .start none (.expr (.call .start (.literal .start (.builtin .println)) [mark]))]
    let it := Interpreter.new .unlimited none
    ∃ pos after after', { it with limit? := some 3 }.executeWithin 9 program =
        some (.error (.stepLimitExceeded .start 3), after) ∧
      { it with limit? := some 2 }.executeWithin 9 program =
        some (.error (.stepLimitExceeded pos 2), after') ∧
      after'.sink.IsStartOf after.sink := by
  intro mark program it
  have hwider : ∀ wider, some 3 = some wider → 2 < wider := by
    rintro wider ⟨⟩
    decide
  have hends : ∃ after, { it with limit? := some 3 }.executeWithin 9 program =
      some (.error (.stepLimitExceeded .start 3), after) := ⟨_, rfl⟩
  have hfour : Interpreter.charged? 9 { it with limit? := some 3 } program = some 4 := rfl
  obtain ⟨after, hwide⟩ := hends
  obtain ⟨steps, answer', after', hcharged, hnarrow, -, hcut⟩ :=
    step_limit_only_cuts hwider rfl hwide
  have hsteps : steps = 4 := Option.some.inj (hcharged.symm.trans hfour)
  obtain ⟨⟨pos, hanswer⟩, hstart⟩ := hcut (by omega)
  rw [hanswer] at hnarrow
  exact ⟨pos, after, after', hwide, hnarrow, hstart⟩

end TwinScript
