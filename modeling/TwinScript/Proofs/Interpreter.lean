import TwinScript.Interpreter

/-!
# How a run of an interpreter is put together

A run of a text is reading it, executing the program, flushing the output and taking over the frames
and the output. The equations here take a run apart along these lines.
-/

namespace TwinScript

/-- The answer of an outcome and the state behind it, if it has ended. -/
def Outcome.answer? {α : Type} : Outcome α → Option (Except EvalError α × State)
  | .done a st => some (.ok a, st)
  | .failed e st => some (.error e, st)
  | .unfinished => none
  | .crashed => none

/-- The error of a run is that of its program, unless the flush behind it fails. -/
def Sink.answerAfterFlush {α : Type} (sink : Sink) (answer : Except EvalError α) :
    Except EvalError α :=
  match sink.flush with
  | none => answer
  | some cause => .error (.output cause)

/-- A flush that works leaves the answer as it is. -/
theorem Sink.answerAfterFlush_of_not_fails {α : Type} {sink : Sink} (h : sink.flushFails = false)
    (answer : Except EvalError α) : sink.answerAfterFlush answer = answer := by
  simp [answerAfterFlush, flush, h]

/-- A text is read as a program if its tokens are found and parsed. -/
theorem readProgram_eq_ok {code : String} {program : List Stmt} :
    readProgram code = .ok program ↔
      ∃ tokens, tokenize code = .ok tokens ∧ parse tokens = .ok program := by
  unfold readProgram
  cases tokenize code with
  | error e => simp
  | ok tokens =>
    cases hp : parse tokens with
    | error e => simp [hp]
    | ok read => simp [hp]

/-- Behind the scanner, reading is parsing. -/
theorem readProgram_of_tokenize {code : String} {tokens : List Token}
    (h : tokenize code = .ok tokens) :
    readProgram code = (parse tokens).mapError ProgramError.parse := by
  unfold readProgram
  rw [h]
  dsimp only
  cases parse tokens with
  | error e => rfl
  | ok read => rfl

/-- Reading a text does not execute it. -/
theorem readProgram_ne_eval (code : String) (e : EvalError) :
    readProgram code ≠ .error (.eval e) := by
  unfold readProgram
  intro h
  split at h
  · cases h
  · split at h <;> cases h

/-- What a program makes of the way its first statement ended, and then the rest of it. -/
def Flow.goOn (fuel : Nat) (rest : List Stmt) : Flow → Eval (Option Val)
  | .normal => runProgram fuel rest
  | .breaking => Eval.fail (.strayControl .breakWord)
  | .continuing => Eval.fail (.strayControl .continueWord)
  | .returning _ => Eval.fail (.strayControl .returnWord)

/-- A program executes its first statement and goes on, unless that is its last and an expression,
whose value is then that of the program. -/
theorem runProgram_cons (fuel : Nat) (s : Stmt) (rest : List Stmt) :
    (∃ e, s = .expr e ∧ rest = []) ∨
      runProgram fuel (s :: rest) =
        s.exec (callWithin fuel) (loopWithin fuel) Heap.root >>= Flow.goOn fuel rest := by
  by_cases h : ∃ e, s = .expr e ∧ rest = []
  · exact .inl h
  · refine .inr ?_
    rw [runProgram]
    · rfl
    · rintro e rfl rfl
      exact h ⟨e, rfl, rfl⟩

namespace Interpreter

/-- A program is executed in the state that the interpreter starts with; the flush comes behind it,
and the interpreter resumes with the frames and the output that are left. -/
theorem executeWithin_eq (fuel : Nat) (it : Interpreter) (program : List Stmt) :
    it.executeWithin fuel program =
      (runProgram fuel program it.start).answer?.map fun (answer, st) =>
        (st.sink.answerAfterFlush answer, it.resume st) := by
  unfold executeWithin Sink.answerAfterFlush
  cases runProgram fuel program it.start with
  | done value st => cases hf : st.sink.flush <;> simp [Outcome.answer?, hf]
  | failed e st => cases hf : st.sink.flush <;> simp [Outcome.answer?, hf]
  | unfinished => rfl
  | crashed => rfl

/-- A text that cannot be read changes nothing. -/
theorem runWithin_of_error {code : String} {e : ProgramError} (h : readProgram code = .error e)
    (fuel : Nat) (it : Interpreter) : it.runWithin fuel code = some (.error e, it) := by
  unfold runWithin
  rw [h]

/-- A text that can be read is executed. -/
theorem runWithin_of_ok {code : String} {program : List Stmt} (h : readProgram code = .ok program)
    (fuel : Nat) (it : Interpreter) :
    it.runWithin fuel code =
      (it.executeWithin fuel program).map fun (answer, after) =>
        (answer.mapError ProgramError.eval, after) := by
  unfold runWithin
  rw [h]
  dsimp only
  rcases it.executeWithin fuel program with _ | ⟨answer, after⟩
  · rfl
  · cases answer with
    | error e => rfl
    | ok v => rfl

/-- What a run comes to: nothing, where the text cannot be read, or else executing the program that
it writes. -/
theorem runWithin_cases {fuel : Nat} {it after : Interpreter} {code : String}
    {answer : Except ProgramError (Option Val)}
    (h : it.runWithin fuel code = some (answer, after)) :
    (∃ e, readProgram code = .error e ∧ answer = .error e ∧ after = it) ∨
      ∃ program given, readProgram code = .ok program ∧
        it.executeWithin fuel program = some (given, after) ∧
        answer = given.mapError ProgramError.eval := by
  cases hread : readProgram code with
  | error e =>
    rw [runWithin_of_error hread] at h
    cases h
    exact .inl ⟨e, rfl, rfl, rfl⟩
  | ok program =>
    rw [runWithin_of_ok hread, Option.map_eq_some_iff] at h
    obtain ⟨⟨given, _⟩, hexecute, heq⟩ := h
    cases heq
    exact .inr ⟨program, given, rfl, hexecute, rfl⟩

section

variable {code : String} {program : List Stmt} (h : readProgram code = .ok program) {fuel : Nat}
  {it after : Interpreter}
include h

/-- An error of such a run is one at run time. -/
theorem executeWithin_of_runWithin_error {e : ProgramError}
    (hrun : it.runWithin fuel code = some (.error e, after)) :
    ∃ e', e = .eval e' ∧ it.executeWithin fuel program = some (.error e', after) := by
  obtain ⟨e, hfailed, -⟩ | ⟨_, given, hread, hexecute, hgiven⟩ := runWithin_cases hrun
  · cases h.symm.trans hfailed
  · cases h.symm.trans hread
    cases given with
    | ok w => cases hgiven
    | error e' =>
      cases hgiven
      exact ⟨e', rfl, hexecute⟩

end

end Interpreter

end TwinScript
