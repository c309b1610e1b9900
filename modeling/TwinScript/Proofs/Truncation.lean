import TwinScript.Proofs.Eval.Restriction
import TwinScript.Session.Basic
import Mathlib.Tactic.Common

/-!
# A full sink truncates and never distorts

A sink that takes only the first bytes is compared with one that takes all. As long as the room
suffices, programs and sessions do the same with both. The write that does not fit fills the sink up
and is an error; it ends all that is going on, and nothing is written any more. In a session the
error comes back as a fragment's, and reporting it fails in turn.

* `Sink.write_cappedAt`, `Sink.writeLine_full`: one write, with room and without.
* `Interpreter.executeWithin_truncates`, `Session.feedAll_truncates`: whole programs and sessions.
* `full_sink_truncates`: both, in terms of what was written.
-/

namespace TwinScript

/-! ## Sinks -/

/-- The sink takes everything, and passes it on. -/
structure Sink.TakesAll (s : Sink) : Prop where
  capacity?_eq : s.capacity? = none
  flushFails_eq : s.flushFails = false

/-- The same sink with a limited capacity. -/
def Sink.cappedAt (s : Sink) (capacity : Nat) : Sink := { s with capacity? := some capacity }

/-- What is left of the sink if only its first bytes were taken. -/
def Sink.truncatedTo (s : Sink) (capacity : Nat) : Sink :=
  { s with written := s.written.extract 0 capacity, capacity? := some capacity }

namespace Sink

variable {s t : Sink} {capacity : Nat}

theorem TakesAll.of_grows (hs : s.TakesAll) (h : s.Grows t) : t.TakesAll :=
  ⟨h.capacity?_eq.trans hs.capacity?_eq, h.flushFails_eq.trans hs.flushFails_eq⟩

theorem TakesAll.flush_eq (hs : s.TakesAll) : s.flush = none := by
  simp [flush, hs.flushFails_eq]

theorem Grows.size_le (h : s.Grows t) : s.written.size ≤ t.written.size := by
  obtain ⟨more, hmore⟩ := h.written
  rw [hmore, ByteArray.size_append]
  omega

theorem TakesAll.write_eq (hs : s.TakesAll) (text : String) :
    s.write text = (none, (s.write text).2) := by
  simp [write, hs.capacity?_eq]

/-- What a sink took at first is the first that it took in the end. -/
theorem truncatedTo_of_grows (h : s.Grows t) (hfull : capacity < s.written.size) :
    t.truncatedTo capacity = s.truncatedTo capacity := by
  obtain ⟨more, hmore⟩ := h.written
  have hfirst : t.written.extract 0 capacity = s.written.extract 0 capacity := by
    rw [hmore, ByteArray.extract_append]
    have hnone : capacity - s.written.size = 0 := by omega
    simp [hnone]
  simp [truncatedTo, hfirst, h.flushFails_eq]

/-- The first bytes are all bytes if there are no more. -/
theorem extract_of_size_le {bytes : ByteArray} (h : bytes.size ≤ capacity) :
    bytes.extract 0 capacity = bytes := by
  have hall := @ByteArray.extract_zero_max_size bytes capacity
  rwa [Nat.max_eq_left h] at hall

/-- With room for a text, writing it is the same; without, the first bytes of it are taken. -/
theorem write_cappedAt (hs : s.TakesAll) (hroom : s.written.size ≤ capacity) (text : String) :
    (s.cappedAt capacity).write text =
      if (s.write text).2.written.size ≤ capacity then (none, (s.write text).2.cappedAt capacity)
      else (some .full, (s.write text).2.truncatedTo capacity) := by
  have hwhole : (s.write text).2 = { s with written := s.written ++ text.toUTF8 } := by
    simp [write, hs.capacity?_eq]
  have hsize : (s.written ++ text.toUTF8).size = s.written.size + text.toUTF8.size :=
    ByteArray.size_append
  rw [hwhole]
  unfold write cappedAt truncatedTo
  dsimp only
  by_cases hfits : text.toUTF8.size ≤ capacity - s.written.size
  · rw [if_pos hfits, if_pos (by omega)]
  · rw [if_neg hfits, if_neg (by omega), ByteArray.extract_append, extract_of_size_le hroom,
      Nat.zero_sub]

/-- A sink that is full takes no further line. -/
theorem writeLine_full (hfull : capacity < s.written.size) (text : String) :
    (s.truncatedTo capacity).writeLine text = (some .full, s.truncatedTo capacity) := by
  have hline : 0 < (text ++ "\n").toUTF8.size := by
    have hnewline : "\n".utf8ByteSize = 1 := by decide
    simp [hnewline]
  have hroom : capacity - (s.written.extract 0 capacity).size = 0 := by
    rw [ByteArray.size_extract]
    omega
  unfold writeLine write truncatedTo
  dsimp only
  rw [hroom, if_neg (by omega)]
  simp

end Sink

/-! ## Runs -/

/-- A capacity as less room: it is used up by what is written. -/
def Restriction.toCapacity (capacity : Nat) : Restriction where
  restrict st := { st with sink := st.sink.cappedAt capacity }
  Fits st := st.sink.TakesAll ∧ st.sink.written.size ≤ capacity
  Stops e := e = .output .full
  Beyond cut st := capacity < st.sink.written.size ∧ cut.sink = st.sink.truncatedTo capacity
  beyond_of_grows h hgrows :=
    ⟨Nat.lt_of_lt_of_le h.1 hgrows.sink.size_le,
      h.2.trans (Sink.truncatedTo_of_grows hgrows.sink h.1).symm⟩
  restrict_heap _ _ := rfl
  restrict_depth _ _ := rfl
  beyond_depth h _ _ := h
  fits_heap h _ := h
  fits_depth h _ := h

namespace Eval

variable {capacity : Nat}

theorem step_cutByCapacity (pos : Position) :
    (Restriction.toCapacity capacity).Cuts (step pos) := by
  refine .of_blind (fun st => ?_) fun st st' hst h => ?_
  · exact step_mapSink (·.cappedAt capacity) pos st
  · rw [step_state h]
    exact hst

/-- The first line for which there is no room is the one that is cut. -/
theorem printLine_cutByCapacity (text : String) :
    (Restriction.toCapacity capacity).Cuts (printLine text) := by
  rintro st ⟨hsink, hroom⟩
  have hgrows := st.sink.grows_write (text ++ "\n")
  have hcapped := Sink.write_cappedAt hsink hroom (text ++ "\n")
  have hwhole : printLine text st = .done () { st with sink := (st.sink.writeLine text).2 } := by
    unfold printLine Sink.writeLine
    rw [hsink.write_eq]
  rw [hwhole]
  unfold printLine Restriction.toCapacity Sink.writeLine
  dsimp only
  rw [hcapped]
  by_cases hfits : (st.sink.write (text ++ "\n")).2.written.size ≤ capacity
  · rw [if_pos hfits]
    refine .inl ⟨rfl, fun st' h => ?_⟩
    cases h
    exact ⟨hsink.of_grows hgrows, hfits⟩
  · rw [if_neg hfits]
    refine .inr ⟨_, _, rfl, rfl, fun st' h => ?_⟩
    cases h
    exact ⟨Nat.lt_of_not_le hfits, rfl⟩

end Eval

/-- The second of two endings of one run is what is left of the first with a limited capacity: it is
the same if all that was written has room, and otherwise it is the error `full` behind the first
bytes of it. What ends is given by its sink, and by itself with a sink of that capacity. -/
inductive Truncates {ε α σ : Type} (sink : σ → Sink) (capped : σ → σ) (capacity : Nat) (full : ε) :
    Except ε α × σ → Option (Except ε α × σ) → Prop
  | fits {answer : Except ε α} {after : σ} (h : (sink after).written.size ≤ capacity) :
      Truncates sink capped capacity full (answer, after) (some (answer, capped after))
  | cut {answer : Except ε α} {after cut : σ} (h : capacity < (sink after).written.size)
      (hcut : sink cut = (sink after).truncatedTo capacity) :
      Truncates sink capped capacity full (answer, after) (some (.error full, cut))

section

variable {ε α σ : Type} {sink : σ → Sink} {capped : σ → σ} {capacity : Nat} {full : ε}
  {answer : Except ε α} {after : σ} {ending : Option (Except ε α × σ)}
  (h : Truncates sink capped capacity full (answer, after) ending)
include h

theorem Truncates.of_size_le (hfits : (sink after).written.size ≤ capacity) :
    ending = some (answer, capped after) := by
  cases h with
  | fits _ => rfl
  | cut hover _ => omega

theorem Truncates.of_lt_size (hover : capacity < (sink after).written.size) :
    ∃ cut, ending = some (.error full, cut) ∧
      (sink cut).written = (sink after).written.extract 0 capacity := by
  cases h with
  | fits hfits => omega
  | @cut _ _ cut _ hcut => exact ⟨cut, rfl, congrArg Sink.written hcut⟩

end

namespace Interpreter

variable {fuel capacity : Nat} {it after : Interpreter}

/-- The same interpreter with a limited capacity of its sink. -/
def cappedAt (it : Interpreter) (capacity : Nat) : Interpreter :=
  { it with sink := it.sink.cappedAt capacity }

/-- Executing a program adds to what was written. -/
theorem executeWithin_grows {program : List Stmt} {answer : Except EvalError (Option Val)}
    (h : it.executeWithin fuel program = some (answer, after)) : it.sink.Grows after.sink := by
  rw [executeWithin_eq, Option.map_eq_some_iff] at h
  obtain ⟨⟨given, st⟩, hanswer, heq⟩ := h
  cases heq
  exact ((runProgram_built fuel program).grows _ _ (Outcome.state?_of_answer? hanswer)).sink

theorem runWithin_grows {code : String} {answer : Except ProgramError (Option Val)}
    (h : it.runWithin fuel code = some (answer, after)) : it.sink.Grows after.sink := by
  obtain ⟨_, -, -, rfl⟩ | ⟨_, _, -, hexecute, -⟩ := runWithin_cases h
  · exact .refl _
  · exact executeWithin_grows hexecute

section

variable (hsink : it.sink.TakesAll) (hroom : it.sink.written.size ≤ capacity)
include hsink hroom

/-- A program is executed in the same way as long as there is room for its output. -/
theorem executeWithin_truncates {program : List Stmt} {answer : Except EvalError (Option Val)}
    (h : it.executeWithin fuel program = some (answer, after)) :
    Truncates Interpreter.sink (·.cappedAt capacity) capacity (.output .full) (answer, after)
      ((it.cappedAt capacity).executeWithin fuel program) := by
  obtain ⟨st, hanswer, rfl, -⟩ := answer_of_executeWithin hsink.flushFails_eq h
  have hstate := Outcome.state?_of_answer? hanswer
  have hcases := (runProgram_built fuel program).cuts Eval.step_cutByCapacity
    Eval.printLine_cutByCapacity it.start ⟨hsink, hroom⟩
  have hflush : (it.cappedAt capacity).sink.flushFails = false := hsink.flushFails_eq
  rcases hcases with ⟨hsame, hfits⟩ | ⟨_, cut, hcut, rfl, hbeyond⟩
  · have hcapped := Outcome.answer?_mapState hanswer (Restriction.toCapacity capacity).restrict
    rw [← hsame] at hcapped
    rw [executeWithin_of_answer hflush hcapped]
    exact .fits (hfits st hstate).2
  · have hcapped : (runProgram fuel program (it.cappedAt capacity).start).answer? =
        some (.error (.output .full), cut) := congrArg Outcome.answer? hcut
    obtain ⟨hover, hfull⟩ := hbeyond st hstate
    rw [executeWithin_of_answer hflush hcapped]
    exact .cut hover hfull

/-- So is the program that a text writes. -/
theorem runWithin_truncates {code : String} {answer : Except ProgramError (Option Val)}
    (h : it.runWithin fuel code = some (answer, after)) :
    Truncates Interpreter.sink (·.cappedAt capacity) capacity (.eval (.output .full))
      (answer, after) ((it.cappedAt capacity).runWithin fuel code) := by
  cases hread : readProgram code with
  | error e =>
    rw [runWithin_of_error hread] at h ⊢
    cases h
    exact .fits hroom
  | ok program =>
    rw [runWithin_of_ok hread, Option.map_eq_some_iff] at h
    obtain ⟨⟨given, _⟩, hexecute, heq⟩ := h
    cases heq
    have hcases := executeWithin_truncates hsink hroom hexecute
    rw [runWithin_of_ok hread]
    generalize (it.cappedAt capacity).executeWithin fuel program = ending at hcases ⊢
    cases hcases with
    | fits h => exact .fits h
    | cut h hcut => exact .cut h hcut

end

end Interpreter

/-! ## Sessions -/

namespace Session

variable {capacity : Nat} {s after : Session}

/-- Where the session prints. -/
def sink (s : Session) : Sink := s.interpreter.sink

/-- The same session with a limited capacity of its sink. -/
def cappedAt (s : Session) (capacity : Nat) : Session := ⟨s.interpreter.cappedAt capacity⟩

/-- The same session with another sink. -/
def withSink (s : Session) (sink : Sink) : Session := ⟨{ s.interpreter with sink }⟩

theorem print_none (hflush : s.sink.flush = none) : s.print none = (.ok .proceed, s) := by
  have h : s.interpreter.sink.flush = none := hflush
  simp [print, h]

/-- A line that has room is printed. -/
theorem print_of_done {line : String} {t : Sink} (hline : s.sink.writeLine line = (none, t))
    (hflush : t.flush = none) : s.print (some line) = (.ok .proceed, s.withSink t) := by
  have h : s.interpreter.sink.writeLine line = (none, t) := hline
  simp [print, h, hflush, withSink]

/-- A line that has none is an error. -/
theorem print_of_error {line : String} {cause : SinkError} {t : Sink}
    (hline : s.sink.writeLine line = (some cause, t)) :
    s.print (some line) = (.error cause, s.withSink t) := by
  have h : s.interpreter.sink.writeLine line = (some cause, t) := hline
  simp [print, h, withSink]

/-- Where all is taken, printing succeeds. -/
theorem print_of_takesAll (hsink : s.sink.TakesAll) (line? : Option String) :
    ∃ printed, s.print line? = (.ok .proceed, printed) ∧ s.sink.Grows printed.sink := by
  cases line? with
  | none => exact ⟨s, print_none hsink.flush_eq, .refl _⟩
  | some line =>
    have hgrows : s.sink.Grows (s.sink.writeLine line).2 := s.sink.grows_write _
    exact ⟨_, print_of_done (hsink.write_eq _) (hsink.of_grows hgrows).flush_eq, hgrows⟩

/-- A fragment does nothing but perhaps end the session, or it is run and its end reported. -/
theorem feed_cases (fragment : String) :
    (∃ goesOn, ∀ s : Session, s.feed fragment = some (.ok goesOn, s)) ∨
      ∀ s : Session, s.feed fragment =
        (s.interpreter.run fragment).map fun (answer, it) => print ⟨it⟩ (report answer) := by
  unfold feed
  dsimp only
  split
  · exact .inl ⟨_, fun _ => rfl⟩
  · split
    · exact .inl ⟨_, fun _ => rfl⟩
    · refine .inr fun s => ?_
      cases s.interpreter.run fragment <;> rfl

/-- What is fed to a session adds to what was written, and never ends it with an error if all is
taken. -/
theorem feed_of_takesAll (hsink : s.sink.TakesAll) {fragment : String}
    {answer : Except SinkError Feed} (h : s.feed fragment = some (answer, after)) :
    (∃ goesOn, answer = .ok goesOn) ∧ s.sink.Grows after.sink := by
  rcases feed_cases fragment with ⟨goesOn, hnothing⟩ | hreported
  · rw [hnothing] at h
    cases h
    exact ⟨⟨_, rfl⟩, .refl _⟩
  · rw [hreported, Option.map_eq_some_iff] at h
    obtain ⟨⟨given, it⟩, hrun, hreport⟩ := h
    have hgrows : s.sink.Grows it.sink := Interpreter.runWithin_grows hrun
    obtain ⟨printed, hprint, hmore⟩ :=
      @print_of_takesAll ⟨it⟩ (hsink.of_grows hgrows) (report given)
    cases hprint.symm.trans hreport
    exact ⟨⟨_, rfl⟩, hgrows.trans hmore⟩

/-- Nor does a row of fragments. -/
theorem feedAll_of_takesAll (hsink : s.sink.TakesAll) {fragments : List String}
    {answer : Except SinkError Unit} (h : s.feedAll fragments = some (answer, after)) :
    answer = .ok () ∧ s.sink.Grows after.sink := by
  induction fragments generalizing s with
  | nil =>
    cases h
    exact ⟨rfl, .refl _⟩
  | cons fragment rest ih =>
    unfold feedAll at h
    split at h
    · cases h
    · next mid hfeed =>
      have hgrows := (feed_of_takesAll hsink hfeed).2
      obtain ⟨hanswer, hmore⟩ := ih (hsink.of_grows hgrows) h
      exact ⟨hanswer, hgrows.trans hmore⟩
    · next mid hfeed =>
      cases h
      exact ⟨rfl, (feed_of_takesAll hsink hfeed).2⟩
    · next cause mid hfeed =>
      obtain ⟨⟨goesOn, herror⟩, -⟩ := feed_of_takesAll hsink hfeed
      cases herror

/-- What a session still prints does not matter where it was cut before. -/
theorem truncates_of_cut {α : Type} {mid cut : Session} {answer : Except SinkError α}
    (hover : capacity < mid.sink.written.size) (hcut : cut.sink = mid.sink.truncatedTo capacity)
    (hgrows : mid.sink.Grows after.sink) :
    Truncates sink (·.cappedAt capacity) capacity .full (answer, after)
      (some (.error .full, cut)) :=
  .cut (Nat.lt_of_lt_of_le hover hgrows.size_le)
    (hcut.trans (Sink.truncatedTo_of_grows hgrows hover).symm)

section

variable (hsink : s.sink.TakesAll) (hroom : s.sink.written.size ≤ capacity)
include hsink hroom

/-- What is printed is cut where there is no room for it. -/
theorem print_truncates (line? : Option String) :
    Truncates sink (·.cappedAt capacity) capacity .full (s.print line?)
      (some ((s.cappedAt capacity).print line?)) := by
  cases line? with
  | none =>
    have hflush : (s.cappedAt capacity).sink.flush = none := hsink.flush_eq
    rw [print_none hsink.flush_eq, print_none hflush]
    exact .fits hroom
  | some line =>
    have hgrows : s.sink.Grows (s.sink.writeLine line).2 := s.sink.grows_write _
    have hflush := (hsink.of_grows hgrows).flush_eq
    have hcapped : (s.cappedAt capacity).sink.writeLine line = _ :=
      Sink.write_cappedAt hsink hroom (line ++ "\n")
    rw [print_of_done (hsink.write_eq _) hflush]
    by_cases hfits : (s.sink.write (line ++ "\n")).2.written.size ≤ capacity
    · rw [if_pos hfits] at hcapped
      rw [print_of_done hcapped hflush]
      exact .fits hfits
    · rw [if_neg hfits] at hcapped
      rw [print_of_error hcapped]
      exact .cut (Nat.lt_of_not_le hfits) rfl

/-- A fragment is fed in the same way as long as there is room for what it prints. If there is none
for the output of its run, there is none for the report of that error either. -/
theorem feed_truncates {fragment : String} {answer : Except SinkError Feed}
    (h : s.feed fragment = some (answer, after)) :
    Truncates sink (·.cappedAt capacity) capacity .full (answer, after)
      ((s.cappedAt capacity).feed fragment) := by
  rcases feed_cases fragment with ⟨goesOn, hnothing⟩ | hreported
  · rw [hnothing] at h ⊢
    cases h
    exact .fits hroom
  · rw [hreported, Option.map_eq_some_iff] at h
    obtain ⟨⟨given, it⟩, hrun, hreport⟩ := h
    have hgrows : s.sink.Grows it.sink := Interpreter.runWithin_grows hrun
    have hcases : Truncates _ _ _ _ _ ((s.cappedAt capacity).interpreter.run fragment) :=
      Interpreter.runWithin_truncates hsink hroom hrun
    rw [hreported, ← hreport]
    generalize (s.cappedAt capacity).interpreter.run fragment = ending at hcases ⊢
    cases hcases with
    | fits hfits => exact @print_truncates _ ⟨it⟩ (hsink.of_grows hgrows) hfits (report given)
    | @cut _ _ cut hover hcut =>
      obtain ⟨printed, hprint, hmore⟩ :=
        @print_of_takesAll ⟨it⟩ (hsink.of_grows hgrows) (report given)
      have hfull (text : String) : cut.sink.writeLine text = (some .full, cut.sink) := by
        rw [hcut]
        exact Sink.writeLine_full hover text
      have hcapped : print ⟨cut⟩ (report (.error (.eval (.output .full)))) =
          (.error .full, ⟨cut⟩) := @print_of_error ⟨cut⟩ _ _ _ (hfull _)
      rw [Option.map_some]
      dsimp only
      rw [hprint, hcapped]
      exact truncates_of_cut hover hcut hmore

/-- Fragments are fed in the same way as long as there is room for all that they print. -/
theorem feedAll_truncates {fragments : List String} {answer : Except SinkError Unit}
    (h : s.feedAll fragments = some (answer, after)) :
    Truncates sink (·.cappedAt capacity) capacity .full (answer, after)
      ((s.cappedAt capacity).feedAll fragments) := by
  induction fragments generalizing s with
  | nil =>
    cases h
    exact .fits hroom
  | cons fragment rest ih =>
    unfold feedAll at h ⊢
    cases hfeed : s.feed fragment with
    | none =>
      rw [hfeed] at h
      cases h
    | some fed =>
      obtain ⟨given, mid⟩ := fed
      obtain ⟨⟨goesOn, rfl⟩, hgrows⟩ := feed_of_takesAll hsink hfeed
      have hcases := feed_truncates hsink hroom hfeed
      rw [hfeed] at h
      generalize (s.cappedAt capacity).feed fragment = ending at hcases ⊢
      cases hcases with
      | fits hfits =>
        cases goesOn with
        | proceed => exact ih (hsink.of_grows hgrows) hfits h
        | exit =>
          cases h
          exact .fits hfits
      | cut hover hcut =>
        -- whatever the other session is still fed comes behind what has room
        have hmore : mid.sink.Grows after.sink := by
          cases goesOn with
          | proceed => exact (feedAll_of_takesAll (hsink.of_grows hgrows) h).2
          | exit =>
            cases h
            exact .refl _
        exact truncates_of_cut hover hcut hmore

end

end Session

/-- **A full sink truncates and never distorts.** Where a program ends with a sink that takes all,
it ends with one that takes only the first bytes. If these are all that was written, it gives the
same answer and leaves the same output and frames; and otherwise it fails since the sink is full,
with exactly the first bytes written. A session that is fed fragments in a row likewise goes on to
its end, with the same output and frames, or ends since the sink is full with the first bytes
written. -/
theorem full_sink_truncates (capacity : Nat) :
    (∀ (it after : Interpreter) (fuel : Nat) (program : List Stmt)
        (answer : Except EvalError (Option Val)),
      it.sink.TakesAll → it.sink.written.size ≤ capacity →
      it.executeWithin fuel program = some (answer, after) →
      (after.sink.written.size ≤ capacity →
        (it.cappedAt capacity).executeWithin fuel program =
          some (answer, after.cappedAt capacity)) ∧
      (capacity < after.sink.written.size →
        ∃ cut, (it.cappedAt capacity).executeWithin fuel program =
            some (.error (.output .full), cut) ∧
          cut.sink.written = after.sink.written.extract 0 capacity)) ∧
    ∀ (s after : Session) (fragments : List String) (answer : Except SinkError Unit),
      s.sink.TakesAll → s.sink.written.size ≤ capacity →
      s.feedAll fragments = some (answer, after) →
      (after.sink.written.size ≤ capacity →
        (s.cappedAt capacity).feedAll fragments = some (.ok (), after.cappedAt capacity)) ∧
      (capacity < after.sink.written.size →
        ∃ cut, (s.cappedAt capacity).feedAll fragments = some (.error .full, cut) ∧
          cut.sink.written = after.sink.written.extract 0 capacity) := by
  refine ⟨fun it after fuel program answer hsink hroom hrun => ?_,
    fun s after fragments answer hsink hroom hfed => ?_⟩
  · have hcases := Interpreter.executeWithin_truncates hsink hroom hrun
    exact ⟨hcases.of_size_le, hcases.of_lt_size⟩
  · have hcases := Session.feedAll_truncates hsink hroom hfed
    obtain ⟨rfl, -⟩ := Session.feedAll_of_takesAll hsink hfed
    exact ⟨hcases.of_size_le, hcases.of_lt_size⟩

/-- A line that is cut ends a program, and a session that is fed its text. -/
theorem full_sink_truncates_inside_line :
    let program : List Stmt := [.expr (.call ⟨1, 1⟩ (.literal ⟨1, 1⟩ (.builtin .println))
      [.literal ⟨1, 9⟩ (.int 12)])]
    let it := Interpreter.new .unlimited none
    (∃ cut, (it.cappedAt 1).executeWithin 0 program = some (.error (.output .full), cut) ∧
        cut.sink.written = "1".toUTF8) ∧
      ∃ cut, (Session.cappedAt ⟨it⟩ 1).feedAll ["println(12)"] = some (.error .full, cut) ∧
        cut.sink.written = "1".toUTF8 := by
  intro program it
  have hsink : it.sink.TakesAll := ⟨rfl, rfl⟩
  have hroom : it.sink.written.size ≤ 1 := by decide +kernel
  have hruns : ∃ after, it.executeWithin 0 program = some (.ok (some .nothing), after) ∧
      after.sink.written = "12\n".toUTF8 := ⟨_, rfl, by decide +kernel⟩
  have hread : readProgram "println(12)" = .ok program :=
    readProgram_eq_ok.mpr ⟨[⟨.keyword .printlnWord, "println", ⟨1, 1⟩⟩,
      ⟨.symbol .leftParen, "(", ⟨1, 8⟩⟩, ⟨.integer 12, "12", ⟨1, 9⟩⟩,
      ⟨.symbol .rightParen, ")", ⟨1, 11⟩⟩], by decide +kernel, rfl⟩
  have hfeeds : ∃ after, Session.feedAll ⟨it⟩ ["println(12)"] = some (.ok (), after) ∧
      after.sink.written = "12\n".toUTF8 := by
    have hcode : trimWhiteSpace "println(12)" = "println(12)" := by decide +kernel
    have hexit : "println(12)" ≠ exitCommand := by decide +kernel
    have hblank : "println(12)".isEmpty = false := by decide +kernel
    simp only [Session.feedAll, Session.feed, hcode, hexit, hblank, Interpreter.run,
      Interpreter.runWithin_of_ok hread]
    exact ⟨_, rfl, by decide +kernel⟩
  obtain ⟨after, hrun, hwritten⟩ := hruns
  obtain ⟨after', hfed, hwritten'⟩ := hfeeds
  obtain ⟨hprograms, hsessions⟩ := full_sink_truncates 1
  have hprogram := (hprograms it after 0 program _ hsink hroom hrun).2
  have hsession := (hsessions ⟨it⟩ after' _ _ hsink hroom hfed).2
  rw [hwritten] at hprogram
  rw [hwritten'] at hsession
  obtain ⟨cut, hcapped, hfirst⟩ := hprogram (by decide +kernel)
  obtain ⟨cut', hcapped', hfirst'⟩ := hsession (by decide +kernel)
  exact ⟨⟨cut, hcapped, hfirst.trans (by decide +kernel)⟩,
    cut', hcapped', hfirst'.trans (by decide +kernel)⟩

end TwinScript
