import TwinScript.Proofs.Eval.Effects

/-!
# What a run only adds to

While a program runs, output is added to what was printed, and steps to what was charged; the limit,
and whether flushes fail, stay as they are (`State.Grows`). All of the evaluator keeps to this
(`Eval.Built.grows`), so the flush behind a program fails if it would have failed before it
(`Interpreter.executeWithin_of_answer`).
-/

namespace TwinScript

/-! ## What a run adds to -/

/-- What the one sink took is the beginning of what the other took. -/
def Sink.IsStartOf (s t : Sink) : Prop := ∃ more, t.written = s.written ++ more

/-- A sink took the beginning of its own output: all of it. -/
theorem Sink.IsStartOf.refl (s : Sink) : s.IsStartOf s := ⟨.empty, by simp⟩

/-- What is added twice is added. -/
theorem Sink.IsStartOf.trans {s t u : Sink} (hst : s.IsStartOf t) (htu : t.IsStartOf u) :
    s.IsStartOf u := by
  obtain ⟨m, hm⟩ := hst
  obtain ⟨n, hn⟩ := htu
  exact ⟨m ++ n, by rw [hn, hm, ByteArray.append_assoc]⟩

/-- The later sink has the same capacity, fails in the same flushes, and took more output at
most. -/
structure Sink.Grows (s t : Sink) : Prop where
  written : s.IsStartOf t
  capacity?_eq : t.capacity? = s.capacity?
  flushFails_eq : t.flushFails = s.flushFails

/-- A sink that is left alone takes nothing back. -/
theorem Sink.Grows.refl (s : Sink) : s.Grows s := ⟨.refl _, rfl, rfl⟩

/-- Growth adds up: neither the capacity nor the flushes change on the way. -/
theorem Sink.Grows.trans {s t u : Sink} (hst : s.Grows t) (htu : t.Grows u) : s.Grows u where
  written := hst.written.trans htu.written
  capacity?_eq := htu.capacity?_eq.trans hst.capacity?_eq
  flushFails_eq := htu.flushFails_eq.trans hst.flushFails_eq

/-- Writing adds to what was written, whether or not there is room for all of it. -/
theorem Sink.grows_write (s : Sink) (text : String) : s.Grows (s.write text).2 := by
  unfold write
  dsimp only
  split
  · exact ⟨⟨_, rfl⟩, rfl, rfl⟩
  · split <;> exact ⟨⟨_, rfl⟩, rfl, rfl⟩

/-- The later state has the same limit, no fewer steps, and more output at most. -/
structure State.Grows (st st' : State) : Prop where
  limit?_eq : st'.limit? = st.limit?
  steps_le : st.steps ≤ st'.steps
  sink : st.sink.Grows st'.sink

/-- A state that is left alone takes nothing back. -/
theorem State.Grows.refl (st : State) : st.Grows st := ⟨rfl, Nat.le_refl _, .refl _⟩

/-- Growth of a state adds up, field by field. -/
theorem State.Grows.trans {st st' st'' : State} (h : st.Grows st') (h' : st'.Grows st'') :
    st.Grows st'' where
  limit?_eq := h'.limit?_eq.trans h.limit?_eq
  steps_le := Nat.le_trans h.steps_le h'.steps_le
  sink := h.sink.trans h'.sink

namespace Eval

/-- Whatever the part of a program does, it changes no limit, and takes back no step and no
output. -/
def Grows {α : Type} (m : Eval α) : Prop :=
  ∀ st st', (m st).state? = some st' → st.Grows st'

/-- An answer alone changes nothing. -/
theorem Grows.pure {α : Type} (a : α) : (Pure.pure a : Eval α).Grows := by
  rintro st st' ⟨⟩
  exact .refl _

/-- Two parts that take nothing back do so in turn, and where the first fails it is the end. -/
theorem Grows.bind {α β : Type} {m : Eval α} {next : α → Eval β} (hm : m.Grows)
    (hnext : ∀ a, (next a).Grows) : (m >>= next).Grows := by
  intro st st' h
  rw [bind_apply] at h
  cases hr : m st with
  | done a mid =>
    rw [hr] at h
    have hmid : st.Grows mid := hm st mid (by rw [hr]; rfl)
    exact hmid.trans (hnext a mid st' h)
  | failed e mid =>
    rw [hr] at h
    exact hm st st' (by rw [hr]; exact h)
  | unfinished | crashed =>
    rw [hr] at h
    cases h

/-- Leaving a function behind its body takes nothing back. -/
theorem Grows.thenLeave {α : Type} {m : Eval α} (hm : m.Grows) :
    (alwaysThen m leaveCall).Grows := by
  intro st st' h
  rw [alwaysThen_leaveCall] at h
  obtain ⟨out, hout, rfl⟩ := Outcome.state?_leave h
  have hgrows := hm st out hout
  exact ⟨hgrows.limit?_eq, hgrows.steps_le, hgrows.sink⟩

/-- A step is charged, or there is no room for it; neither gives one back. -/
theorem step_grows (pos : Position) : (step pos).Grows := by
  intro st st' h
  rw [step_state h]
  exact ⟨rfl, Nat.le_succ _, .refl _⟩

/-- Entering a function charges a step, unless the calls are too deep. -/
theorem enterCall_grows (pos : Position) : (enterCall pos).Grows := by
  intro st st' h
  unfold Eval.enterCall at h
  split at h
  · obtain rfl := Option.some.inj h
    exact .refl _
  · rw [step_state h]
    exact ⟨rfl, Nat.le_succ _, .refl _⟩

/-- Printing adds a line, or the part of it that there is room for. -/
theorem printLine_grows (text : String) : (printLine text).Grows := by
  intro st st' h
  rw [printLine_state h]
  exact ⟨rfl, Nat.le_refl _, st.sink.grows_write _⟩

/-- A run changes no limit, and takes back no step and no output. -/
theorem Built.grows {α : Type} {m : Eval α} (hm : m.Built) : m.Grows := by
  induction hm with
  | result a => exact .pure a
  | fail _ =>
    rintro st st' ⟨⟩
    exact .refl _
  | unfinished => rintro st st' ⟨⟩
  | bind _ _ ihm ihnext => exact ihm.bind ihnext
  | step pos => exact step_grows pos
  | insideCall _ pos ih => exact (enterCall_grows pos).bind fun _ => ih.thenLeave
  | readName f pos name =>
    intro st st' h
    rw [readName_state h]
    exact .refl _
  | writeName f name v =>
    rintro st st' ⟨⟩
    exact ⟨rfl, Nat.le_refl _, .refl _⟩
  | declare f name params body =>
    rintro st st' ⟨⟩
    exact ⟨rfl, Nat.le_refl _, .refl _⟩
  | newFrame f bindings =>
    rintro st st' ⟨⟩
    exact ⟨rfl, Nat.le_refl _, .refl _⟩
  | printLine text => exact printLine_grows text

end Eval

/-! ## Interpreters -/

/-- An outcome that has ended is an answer and a state. -/
theorem Outcome.answer?_eq_some {α : Type} {o : Outcome α} {answer : Except EvalError α}
    {st : State} (h : o.answer? = some (answer, st)) :
    (∃ a, o = .done a st ∧ answer = .ok a) ∨ ∃ e, o = .failed e st ∧ answer = .error e := by
  cases o with
  | done a st' =>
    obtain ⟨rfl, rfl⟩ := Prod.mk.inj (Option.some.inj h)
    exact .inl ⟨a, rfl, rfl⟩
  | failed e st' =>
    obtain ⟨rfl, rfl⟩ := Prod.mk.inj (Option.some.inj h)
    exact .inr ⟨e, rfl, rfl⟩
  | unfinished | crashed => cases h

/-- Where there is an answer, there is a state beside it. -/
theorem Outcome.state?_of_answer? {α : Type} {o : Outcome α} {answer : Except EvalError α}
    {st : State} (h : o.answer? = some (answer, st)) : o.state? = some st := by
  rcases answer?_eq_some h with ⟨a, rfl, _⟩ | ⟨e, rfl, _⟩ <;> rfl

namespace Interpreter

/-- Where flushes do not fail, a program is executed with the answer of its run. -/
theorem executeWithin_of_answer {fuel : Nat} {it : Interpreter} {program : List Stmt}
    (hflush : it.sink.flushFails = false) {answer : Except EvalError (Option Val)} {st : State}
    (h : (runProgram fuel program it.start).answer? = some (answer, st)) :
    it.executeWithin fuel program = some (answer, it.resume st) := by
  have hgrows := (runProgram_built fuel program).grows _ _ (Outcome.state?_of_answer? h)
  have hnofail : st.sink.flushFails = false := by
    rw [hgrows.sink.flushFails_eq]
    exact hflush
  rw [executeWithin_eq, h]
  show some (st.sink.answerAfterFlush answer, it.resume st) = _
  rw [Sink.answerAfterFlush_of_not_fails hnofail]

/-- Where flushes do not fail, a program that was executed has left its answer and its state to the
interpreter. -/
theorem answer_of_executeWithin {fuel : Nat} {it after : Interpreter} {program : List Stmt}
    (hflush : it.sink.flushFails = false) {answer : Except EvalError (Option Val)}
    (h : it.executeWithin fuel program = some (answer, after)) :
    ∃ st, (runProgram fuel program it.start).answer? = some (answer, st) ∧ after = it.resume st ∧
      it.start.Grows st := by
  cases hanswer : (runProgram fuel program it.start).answer? with
  | none =>
    rw [executeWithin_eq, hanswer] at h
    cases h
  | some ended =>
    obtain ⟨answer', st⟩ := ended
    rw [executeWithin_of_answer hflush hanswer] at h
    cases h
    have hgrows := (runProgram_built fuel program).grows _ _ (Outcome.state?_of_answer? hanswer)
    exact ⟨st, rfl, rfl, hgrows⟩

end Interpreter

end TwinScript
