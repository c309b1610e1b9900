import TwinScript.Proofs.Truncation

/-!
# Output that fails

A program writes one line after the other, and the first of them that a sink does not take ends the
run with the sink's error. Nothing is written behind it (`Eval.Built.writes`), so of a sink that
fails a run learns no more than where it does. Sinks with a limited capacity fail everywhere:
whichever line is the first that is not taken, and however many bytes are taken of it, there is a
capacity with which that happens (`Interpreter.exists_capacity`).
-/

namespace TwinScript

/-- Writing the lines one after the other leads from the one sink to the other. All of them were
taken, or all but the last, and `cause?` says why that was not. -/
inductive Sink.Writes : Sink → List String → Option SinkError → Sink → Prop
  | nothing {s : Sink} : Writes s [] none s
  | line {s mid t : Sink} {text : String} {lines : List String} {cause? : Option SinkError}
      (h : s.writeLine text = (none, mid)) (hrest : Writes mid lines cause? t) :
      Writes s (text :: lines) cause? t
  | failure {s t : Sink} {text : String} {cause : SinkError}
      (h : s.writeLine text = (some cause, t)) : Writes s [text] (some cause) t

namespace Sink.Writes

variable {s t mid : Sink} {lines more : List String} {cause? : Option SinkError}

/-- Where several lines were taken, the first one was, and the others behind it. -/
theorem of_cons {text : String} (h : s.Writes (text :: lines) none t) :
    ∃ mid, s.writeLine text = (none, mid) ∧ mid.Writes lines none t := by
  cases h with
  | line h hrest => exact ⟨_, h, hrest⟩

/-- More lines may follow where the lines before them were taken. -/
theorem append (h : s.Writes lines none mid) (hmore : mid.Writes more cause? t) :
    s.Writes (lines ++ more) cause? t := by
  induction lines generalizing s with
  | nil =>
    cases h
    exact hmore
  | cons text lines ih =>
    obtain ⟨_, htext, hrest⟩ := h.of_cons
    exact .line htext (ih hrest)

/-- Lines that were taken were taken one after the other. -/
theorem of_append (h : s.Writes (lines ++ more) none t) :
    ∃ mid, s.Writes lines none mid ∧ mid.Writes more none t := by
  induction lines generalizing s with
  | nil => exact ⟨s, .nothing, h⟩
  | cons text lines ih =>
    obtain ⟨_, htext, hrest⟩ := of_cons h
    obtain ⟨mid, hlines, hmore⟩ := ih hrest
    exact ⟨mid, .line htext hlines, hmore⟩

/-- Whether or not the last line fails, the sink only adds to its output. -/
theorem grows (h : s.Writes lines cause? t) : s.Grows t := by
  induction h with
  | nothing => exact .refl _
  | @line s mid t text _ _ h _ ih =>
    have hgrows := s.grows_write (text ++ "\n")
    rw [show s.write (text ++ "\n") = (none, mid) from h] at hgrows
    exact hgrows.trans ih
  | @failure s t text cause h =>
    have hgrows := s.grows_write (text ++ "\n")
    rwa [show s.write (text ++ "\n") = (some cause, t) from h] at hgrows

end Sink.Writes

/-! ## Runs -/

/-- Behind a result all lines were taken that were written to the sink `s`. So they were behind an
error, or if that is the sink's, all but the last. -/
def Outcome.Writes {α : Type} (s : Sink) : Outcome α → Prop
  | .done _ st => ∃ lines, s.Writes lines none st.sink
  | .failed e st => ∃ lines cause?, s.Writes lines cause? st.sink ∧
      ∀ cause, e = .output cause ↔ cause? = some cause
  | .unfinished => True
  | .crashed => True

/-- Leaving a function writes nothing. -/
theorem Outcome.Writes.leave {α : Type} {o : Outcome α} {s : Sink} (h : o.Writes s) :
    o.leave.Writes s := by
  cases o with
  | done a out | failed e out =>
    rw [Outcome.leave]
    split
    · trivial
    · exact h
  | unfinished | crashed => trivial

namespace Eval

variable {α : Type} {m : Eval α}

/-- A step prints nothing, and the error of the step limit is not one of the output. -/
theorem step_writes (pos : Position) (st : State) : (step pos st).Writes st.sink := by
  unfold step
  dsimp only
  split
  · split
    · exact ⟨[], none, .nothing, by simp⟩
    · exact ⟨[], .nothing⟩
  · exact ⟨[], .nothing⟩

/-- Entering a function prints nothing. -/
theorem enterCall_writes (pos : Position) (st : State) : (enterCall pos st).Writes st.sink := by
  unfold enterCall
  split
  · exact ⟨[], none, .nothing, by simp⟩
  · exact step_writes pos _

/-- Nor does reading a name. -/
theorem readName_writes (f : FrameId) (pos : Position) (name : String) (st : State) :
    (readName f pos name st).Writes st.sink := by
  unfold readName
  split
  · exact ⟨[], .nothing⟩
  · exact ⟨[], none, .nothing, by simp⟩

/-- Printing writes one line, which is taken or is the one that fails. -/
theorem printLine_writes (text : String) (st : State) : (printLine text st).Writes st.sink := by
  unfold printLine
  split
  · next t h => exact ⟨[text], .line h .nothing⟩
  · next cause t h => exact ⟨[text], some cause, .failure h, by simp⟩

/-- The lines of one part stand before those of the next; behind a failing line there is no next
part. -/
theorem bind_writes {β : Type} {next : α → Eval β} {st : State} (hm : (m st).Writes st.sink)
    (hnext : ∀ a mid, (next a mid).Writes mid.sink) : ((m >>= next) st).Writes st.sink := by
  rw [bind_apply]
  cases hr : m st with
  | done a mid =>
    rw [hr] at hm
    obtain ⟨lines, hlines⟩ := hm
    have hmore := hnext a mid
    dsimp only
    cases hr' : next a mid with
    | done b out =>
      rw [hr'] at hmore
      obtain ⟨more, hmore⟩ := hmore
      exact ⟨lines ++ more, hlines.append hmore⟩
    | failed e out =>
      rw [hr'] at hmore
      obtain ⟨more, cause?, hmore, hcause⟩ := hmore
      exact ⟨lines ++ more, cause?, hlines.append hmore, hcause⟩
    | unfinished | crashed => trivial
  | failed e mid =>
    rw [hr] at hm
    exact hm
  | unfinished | crashed => trivial

/-- **The first write that fails ends the run**, with its error. -/
theorem Built.writes (hm : m.Built) (st : State) : (m st).Writes st.sink := by
  induction hm generalizing st with
  | result a => exact ⟨[], .nothing⟩
  | fail h =>
    refine ⟨[], none, .nothing, fun cause => ⟨?_, by simp⟩⟩
    rintro rfl
    cases h
  | unfinished => trivial
  | bind _ _ ihm ihnext => exact bind_writes (ihm st) ihnext
  | step pos => exact step_writes pos st
  | insideCall _ pos ih =>
    refine bind_writes (enterCall_writes pos st) fun _ inside => ?_
    rw [alwaysThen_leaveCall]
    exact (ih inside).leave
  | readName f pos name => exact readName_writes f pos name st
  | writeName f name v => exact ⟨[], .nothing⟩
  | declare f name params body => exact ⟨[], .nothing⟩
  | newFrame f bindings => exact ⟨[], .nothing⟩
  | printLine text => exact printLine_writes text st

end Eval

namespace Interpreter

variable {fuel : Nat} {it after : Interpreter} {program : List Stmt}
  {answer : Except EvalError (Option Val)}

/-- Where flushes do not fail, the lines that a program writes are all taken, or the error of the
one that is not is the program's. -/
theorem executeWithin_writes (hflush : it.sink.flushFails = false)
    (h : it.executeWithin fuel program = some (answer, after)) :
    ∃ lines cause?, it.sink.Writes lines cause? after.sink ∧
      ∀ cause, answer = .error (.output cause) ↔ cause? = some cause := by
  obtain ⟨st, hanswer, rfl, -⟩ := answer_of_executeWithin hflush h
  have hwrites : (runProgram fuel program it.start).Writes it.sink :=
    (runProgram_built fuel program).writes it.start
  rcases Outcome.answer?_eq_some hanswer with ⟨a, hrun, rfl⟩ | ⟨e, hrun, rfl⟩
  · rw [hrun] at hwrites
    obtain ⟨lines, hlines⟩ := hwrites
    exact ⟨lines, none, hlines, by simp⟩
  · rw [hrun] at hwrites
    obtain ⟨lines, cause?, hlines, hcause⟩ := hwrites
    exact ⟨lines, cause?, hlines, by simpa using hcause⟩

/-- **A limited capacity fails anywhere.** Of the lines that a program writes to a sink that takes
all, each is the first that is not taken by a sink of some capacity, and any part of it may be taken
first. -/
theorem exists_capacity (hsink : it.sink.TakesAll)
    (h : it.executeWithin fuel program = some (answer, after)) {before behind : List String}
    {text : String} (hlines : it.sink.Writes (before ++ text :: behind) none after.sink)
    {taken : Nat} (htaken : taken < (text ++ "\n").toUTF8.size) :
    ∃ capacity mid cut, it.sink.Writes before none mid ∧
      (it.cappedAt capacity).executeWithin fuel program = some (.error (.output .full), cut) ∧
      cut.sink.written = mid.written ++ (text ++ "\n").toUTF8.extract 0 taken := by
  obtain ⟨mid, hbefore, hbehind⟩ := hlines.of_append
  obtain ⟨next, hnext, hrest⟩ := hbehind.of_cons
  have hwritten : next.written = mid.written ++ (text ++ "\n").toUTF8 := by
    have hcapacity := (hsink.of_grows hbefore.grows).capacity?_eq
    have htext : (mid.writeLine text).2 = next := congrArg Prod.snd hnext
    rw [← htext]
    simp [Sink.writeLine, Sink.write, hcapacity]
  have hroom : it.sink.written.size ≤ mid.written.size + taken :=
    Nat.le_trans hbefore.grows.size_le (Nat.le_add_right _ _)
  have hless : mid.written.size + taken < next.written.size := by
    rw [hwritten, ByteArray.size_append]
    exact Nat.add_lt_add_left htaken _
  have hover := Nat.lt_of_lt_of_le hless hrest.grows.size_le
  obtain ⟨cut, hcut, hfirst⟩ := (executeWithin_truncates hsink hroom h).of_lt_size hover
  refine ⟨_, mid, cut, hbefore, hcut, ?_⟩
  obtain ⟨more, hmore⟩ := hrest.grows.written
  have hnone : taken - (text ++ "\n").toUTF8.size = 0 := Nat.sub_eq_zero_of_le (Nat.le_of_lt htaken)
  rw [hfirst, hmore, hwritten, ByteArray.append_assoc, ByteArray.extract_append,
    Sink.extract_of_size_le (Nat.le_add_right _ _), Nat.zero_sub, Nat.add_sub_cancel_left,
    ByteArray.extract_append, Nat.zero_sub, hnone]
  simp

end Interpreter

end TwinScript
