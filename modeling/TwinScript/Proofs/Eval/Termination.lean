import TwinScript.Proofs.Eval.Fuel
import TwinScript.Proofs.Eval.StepLimit

/-!
# A step limit ends every run

Evaluation follows the shape of the tree but for calls, which go on with a body found in the heap,
and loops, which go on with the same body again. Both are charged before they do. So a run under a
limit is bounded by the steps that are still allowed, and between two of them by the tree at hand;
nothing is asked of the program, of the functions in the heap or of the sink.

* `rules_end`: with as many further steps allowed as half of the fuel, calls and loops end.
* `Eval.Built.chargedWithin`: no run is charged for more than one step beyond its limit.
* `step_limit_ends_every_run`: the same of whole programs.
-/

namespace TwinScript

namespace Eval

variable {α β : Type} {allowed : Nat}

/-- With at most `allowed` further steps before its limit is exceeded, the part of a program
ends. -/
def EndsWithin (allowed : Nat) (m : Eval α) : Prop :=
  ∀ st limit, st.limit? = some limit → limit ≤ st.steps + allowed → m st ≠ .unfinished

theorem EndsWithin.bind {m : Eval α} {next : α → Eval β} (hm : m.EndsWithin allowed)
    (hgrows : m.Grows) (hnext : ∀ a, (next a).EndsWithin allowed) :
    (m >>= next).EndsWithin allowed := by
  intro st limit hlimit hallowed
  rw [bind_apply]
  cases hr : m st with
  | done a mid =>
    have hmid : st.Grows mid := hgrows st mid (by rw [hr]; rfl)
    have hsteps := hmid.steps_le
    exact hnext a mid limit (hmid.limit?_eq.trans hlimit) (by omega)
  | failed _ _ | crashed => exact fun h => by cases h
  | unfinished => exact absurd hr (hm st limit hlimit hallowed)

/-- A function is left at once, however its body ends. -/
theorem EndsWithin.thenLeave {m : Eval α} (hm : m.EndsWithin allowed) :
    (alwaysThen m leaveCall).EndsWithin allowed := by
  intro st limit hlimit hallowed
  have hends := hm st limit hlimit hallowed
  rw [alwaysThen_leaveCall]
  cases hr : m st with
  | done _ out | failed _ out =>
    rw [Outcome.leave]
    split <;> simp
  | unfinished => exact absurd hr hends
  | crashed => simp [Outcome.leave]

/-- Behind a step fewer further steps are allowed, and behind the last nothing is executed. -/
theorem EndsWithin.step_bind (pos : Position) {next : Unit → Eval β}
    (hnext : ∀ fewer < allowed, (next ()).EndsWithin fewer) :
    (step pos >>= next).EndsWithin allowed := by
  intro st limit hlimit hallowed
  rw [bind_apply]
  unfold step
  rw [hlimit]
  by_cases hover : limit < st.steps + 1
  · simp [hover]
  · have hfewer : allowed - 1 < allowed := by omega
    have hleft : limit ≤ st.steps + 1 + (allowed - 1) := by omega
    simpa [hover, hlimit] using
      hnext _ hfewer { st with steps := st.steps + 1 } limit hlimit hleft

/-- A part of a program that is built from effects, and ends with the further steps allowed. -/
structure BuiltToEnd (allowed : Nat) (m : Eval α) : Prop where
  built : m.Built
  ends : m.EndsWithin allowed

/-- The body of a call is behind the step that the call is charged for. -/
theorem EndsWithin.insideCall (pos : Position) {m : Eval α}
    (hm : ∀ fewer < allowed, m.BuiltToEnd fewer) : (insideCall pos m).EndsWithin allowed := by
  intro st limit hlimit hallowed
  by_cases hdepth : maxCallDepth ≤ st.depth
  · simp [Eval.insideCall, andThen, Eval.enterCall, hdepth]
  · have hstep := @EndsWithin.step_bind _ allowed pos (fun _ => alwaysThen m leaveCall)
      (fun fewer hfewer => (hm fewer hfewer).ends.thenLeave)
      { st with depth := st.depth + 1 } limit hlimit hallowed
    rw [bind_apply] at hstep
    simpa [Eval.insideCall, andThen, Eval.enterCall, hdepth] using hstep

/-- An effect ends at once. -/
theorem BuiltToEnd.of_effect {m : Eval α} (hbuilt : m.Built) (h : ∀ st, m st ≠ .unfinished) :
    m.BuiltToEnd allowed :=
  ⟨hbuilt, fun st _ _ _ => h st⟩

theorem readName_ne_unfinished (f : FrameId) (pos : Position) (name : String) (st : State) :
    readName f pos name st ≠ .unfinished := by
  unfold Eval.readName
  split <;> simp

theorem printLine_ne_unfinished (text : String) (st : State) :
    printLine text st ≠ .unfinished := by
  unfold Eval.printLine
  split <;> simp

theorem BuiltToEnd.closed (allowed : Nat) : Eval.Closed fun m => m.BuiltToEnd allowed where
  result a := .of_effect (.result a) fun _ h => by cases h
  fail he := .of_effect (.fail he) fun _ h => by cases h
  bind hm hnext := ⟨hm.built.bind fun a => (hnext a).built,
    hm.ends.bind hm.built.grows fun a => (hnext a).ends⟩
  readName f pos name := .of_effect (.readName f pos name) (readName_ne_unfinished f pos name)
  writeName f name v := .of_effect (.writeName f name v) fun _ h => by cases h
  declare f name params body := .of_effect (.declare f name params body) fun _ h => by cases h
  newFrame f bindings := .of_effect (.newFrame f bindings) fun _ h => by cases h
  printLine text := .of_effect (.printLine text) (printLine_ne_unfinished text)

end Eval

/-! ## Calls and loops -/

/-- Calls end if there is fuel for two of them for each step that is still allowed, and so do loops
with fuel for one call more, which may be in their condition. -/
theorem rules_end (allowed : Nat) :
    (∀ fuel, 2 * allowed + 1 ≤ fuel → ∀ c args pos,
        (callWithin fuel c args pos).BuiltToEnd allowed) ∧
      ∀ fuel, 2 * allowed + 2 ≤ fuel → ∀ f pos condition body,
        (loopWithin fuel f pos condition body).BuiltToEnd allowed := by
  induction allowed using Nat.strongRecOn with
  | ind allowed ih =>
    have hcalls : ∀ fuel, 2 * allowed + 1 ≤ fuel → ∀ c args pos,
        (callWithin fuel c args pos).BuiltToEnd allowed := by
      rintro (_ | fuel) hfuel c args pos
      · omega
      · refine ⟨(rules_built _).1 c args pos, ?_⟩
        rw [callWithin]
        apply Eval.EndsWithin.insideCall
        intro fewer hfewer
        have hclosed := Eval.BuiltToEnd.closed fewer
        have hcall := (ih fewer hfewer).1 fuel (by omega)
        have hloop := (ih fewer hfewer).2 fuel (by omega)
        apply hclosed.bind (hclosed.newFrame _ _)
        intro frame
        apply hclosed.bind (Stmt.execAll_closed hclosed hcall hloop frame c.body)
        exact Flow.callResult_closed hclosed
    refine ⟨hcalls, ?_⟩
    rintro (_ | fuel) hfuel f pos condition body
    · omega
    · refine ⟨(rules_built _).2 f pos condition body, ?_⟩
      have hclosed := Eval.BuiltToEnd.closed allowed
      have hcondition := loopCondition_closed hclosed (hcalls fuel (by omega)) f condition
      rw [loopWithin]
      apply hcondition.ends.bind hcondition.built.grows
      intro again
      split
      · apply Eval.EndsWithin.step_bind
        intro fewer hfewer
        have hclosed := Eval.BuiltToEnd.closed fewer
        have hcall := (ih fewer hfewer).1 fuel (by omega)
        have hloop := (ih fewer hfewer).2 fuel (by omega)
        apply (hclosed.bind (Stmt.exec_closed hclosed hcall hloop f body) ?_).ends
        intro flow
        split
        · exact hclosed.result _
        · exact hclosed.result _
        · exact hloop f pos condition body
      · exact (hclosed.result _).ends

/-! ## The steps charged -/

/-- The outcome was charged for no more steps than `limit`, or for one more if it failed. -/
def Outcome.ChargedWithin {α : Type} (limit : Nat) : Outcome α → Prop
  | .done _ st => st.steps ≤ limit
  | .failed _ st => st.steps ≤ limit + 1
  | .unfinished => True
  | .crashed => True

namespace Eval

variable {α β : Type} {limit : Nat}

/-- Under the limit, and with no more steps charged than that so far, the part of a program is
charged for no more either, but for the step at which it fails. -/
def ChargedWithin (limit : Nat) (m : Eval α) : Prop :=
  ∀ st, st.limit? = some limit → st.steps ≤ limit → (m st).ChargedWithin limit

theorem ChargedWithin.bind {m : Eval α} {next : α → Eval β} (hm : m.ChargedWithin limit)
    (hgrows : m.Grows) (hnext : ∀ a, (next a).ChargedWithin limit) :
    (m >>= next).ChargedWithin limit := by
  intro st hlimit hsteps
  have h := hm st hlimit hsteps
  rw [bind_apply]
  cases hr : m st with
  | done a mid =>
    rw [hr] at h
    have hmid : st.Grows mid := hgrows st mid (by rw [hr]; rfl)
    exact hnext a mid (hmid.limit?_eq.trans hlimit) h
  | failed e mid =>
    rw [hr] at h
    exact h
  | unfinished | crashed => trivial

/-- Whatever does not charge stays within the limit. -/
theorem ChargedWithin.of_steps_eq {m : Eval α}
    (h : ∀ st st', (m st).state? = some st' → st'.steps = st.steps) : m.ChargedWithin limit := by
  intro st _ hsteps
  have hm := h st
  cases hr : m st with
  | done a st' =>
    have : st'.steps = st.steps := hm st' (by rw [hr]; rfl)
    show st'.steps ≤ limit
    omega
  | failed e st' =>
    have : st'.steps = st.steps := hm st' (by rw [hr]; rfl)
    show st'.steps ≤ limit + 1
    omega
  | unfinished | crashed => trivial

/-- Leaving a function is not charged for, and an error behind it stays within what that of the body
is allowed. -/
theorem ChargedWithin.thenLeave {m : Eval α} (hm : m.ChargedWithin limit) :
    (alwaysThen m leaveCall).ChargedWithin limit := by
  intro st hlimit hsteps
  have h := hm st hlimit hsteps
  rw [alwaysThen_leaveCall]
  cases hr : m st with
  | unfinished | crashed => trivial
  | _ =>
    rw [hr] at h
    rw [Outcome.leave]
    split
    · trivial
    · exact h

theorem step_chargedWithin (pos : Position) : (step pos).ChargedWithin limit := by
  intro st hlimit hsteps
  unfold step
  rw [hlimit]
  by_cases hover : limit < st.steps + 1
  · simp only [hover, if_true]
    exact Nat.succ_le_succ hsteps
  · simp only [hover, if_false]
    exact Nat.le_of_not_lt hover

theorem enterCall_chargedWithin (pos : Position) : (enterCall pos).ChargedWithin limit := by
  intro st hlimit hsteps
  unfold Eval.enterCall
  split
  · exact Nat.le_succ_of_le hsteps
  · exact step_chargedWithin pos { st with depth := st.depth + 1 } hlimit hsteps

/-- A run is charged for at most one step beyond its limit, at which it fails. -/
theorem Built.chargedWithin {m : Eval α} (hm : m.Built) : m.ChargedWithin limit := by
  induction hm with
  | result a => exact .of_steps_eq fun st st' h => by cases h; rfl
  | fail _ => exact .of_steps_eq fun st st' h => by cases h; rfl
  | unfinished => exact .of_steps_eq fun st st' h => by cases h
  | bind hm _ ihm ihnext => exact ihm.bind hm.grows ihnext
  | step pos => exact step_chargedWithin pos
  | insideCall _ pos ih =>
    exact (enterCall_chargedWithin pos).bind (enterCall_grows pos) fun _ => ih.thenLeave
  | readName f pos name => exact .of_steps_eq fun st st' h => by rw [readName_state h]
  | writeName f name v => exact .of_steps_eq fun st st' h => by cases h; rfl
  | declare f name params body => exact .of_steps_eq fun st st' h => by cases h; rfl
  | newFrame f bindings => exact .of_steps_eq fun st st' h => by cases h; rfl
  | printLine text => exact .of_steps_eq fun st st' h => by rw [printLine_state h]

end Eval

/-! ## Programs -/

/-- Under a limit a program ends with fuel for two calls or loop rounds for each step. -/
theorem runProgram_ends {limit fuel : Nat} (hfuel : 2 * limit + 2 ≤ fuel) (program : List Stmt)
    {st : State} (hlimit : st.limit? = some limit) : runProgram fuel program st ≠ .unfinished := by
  have hcall := (rules_end limit).1 fuel (by omega)
  have hloop := (rules_end limit).2 fuel hfuel
  have hprogram := runProgram_closed (Eval.BuiltToEnd.closed limit) hcall hloop program
  exact hprogram.ends st limit hlimit (by omega)

/-- **A step limit ends every run.** Whatever the program, be it parsed or built by hand with
functions among its values, and whatever frames, functions and sink the interpreter has, a program
that is executed under a step limit ends with a value or an error: it does within an amount of fuel
that depends on the limit alone, and in the same way within any more. It is charged for at most one
step beyond the limit. -/
theorem step_limit_ends_every_run (it : Interpreter) (limit : Nat) (program : List Stmt) :
    ∃ answer after steps, ∀ more,
      { it with limit? := some limit }.executeWithin (2 * limit + 2 + more) program =
          some (answer, after) ∧
        Interpreter.charged? (2 * limit + 2 + more) { it with limit? := some limit } program =
          some steps ∧
        steps ≤ limit + 1 := by
  let limited : Interpreter := { it with limit? := some limit }
  let fuel := 2 * limit + 2
  have hlimit : limited.start.limit? = some limit := rfl
  have hends : runProgram fuel program limited.start ≠ .unfinished :=
    runProgram_ends (Nat.le_refl _) program hlimit
  have hmore (more : Nat) : runProgram (fuel + more) program limited.start =
      runProgram fuel program limited.start := runProgram_extended fuel more program _ hends
  have hcharged : (runProgram fuel program limited.start).ChargedWithin limit :=
    (runProgram_built fuel program).chargedWithin _ hlimit (Nat.zero_le limit)
  unfold Interpreter.charged?
  cases hr : runProgram fuel program limited.start with
  | done v st =>
    rw [hr] at hcharged hmore
    have hexecuted : limited.executeWithin fuel program =
        some (st.sink.answerAfterFlush (.ok v), limited.resume st) := by
      rw [Interpreter.executeWithin_eq, hr]
      rfl
    refine ⟨_, _, st.steps, fun more => ⟨Interpreter.executeWithin_extended hexecuted more, ?_,
      Nat.le_succ_of_le hcharged⟩⟩
    rw [hmore more]
    rfl
  | failed e st =>
    rw [hr] at hcharged hmore
    have hexecuted : limited.executeWithin fuel program =
        some (st.sink.answerAfterFlush (.error e), limited.resume st) := by
      rw [Interpreter.executeWithin_eq, hr]
      rfl
    refine ⟨_, _, st.steps, fun more => ⟨Interpreter.executeWithin_extended hexecuted more, ?_,
      hcharged⟩⟩
    rw [hmore more]
    rfl
  | unfinished => exact absurd hr hends
  | crashed => exact absurd hr ((runProgram_built fuel program).ne_crashed _)

end TwinScript
