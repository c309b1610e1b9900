import TwinScript.Proofs.Truncation

/-!
# Transcripts of sessions

What a run writes comes behind what was written before, and does not depend on it. So the transcript
of a session falls into what each of its fragments has written, and two sessions that differ only in
what they have written so far go on alike.

* `Interpreter.runWithin_behind`, `Session.feed_behind`: a run behind any output is the same run.
* `Session.log`: what a session does with each fragment that it comes to.
* `Session.feedAll_eq_log`, `Session.written_of_log`: the log is all that a session does, and the
  transcript all that it writes.
-/

namespace TwinScript

/-! ## Output behind other output -/

/-- The same sink, with other output before what was written. -/
def Sink.behind (s : Sink) (before : ByteArray) : Sink := { s with written := before ++ s.written }

/-- A sink without a limit takes all of a text. -/
theorem Sink.write_unlimited {s : Sink} (hs : s.capacity? = none) (text : String) :
    s.write text = (none, { s with written := s.written ++ text.toUTF8 }) := by
  unfold write
  rw [hs]

theorem Sink.write_behind {s : Sink} (hs : s.capacity? = none) (before : ByteArray)
    (text : String) : (s.behind before).write text = (none, (s.write text).2.behind before) := by
  have hbehind : (s.behind before).capacity? = none := hs
  rw [write_unlimited hs, write_unlimited hbehind]
  unfold behind
  rw [ByteArray.append_assoc]

/-- Output before what is written, as a restriction that stops nothing: a sink without a limit has
room behind it as well. -/
def Restriction.behind (before : ByteArray) : Restriction where
  restrict st := { st with sink := st.sink.behind before }
  Fits st := st.sink.capacity? = none
  Stops _ := False
  Beyond _ _ := False
  beyond_of_grows h _ := h
  restrict_heap _ _ := rfl
  restrict_depth _ _ := rfl
  beyond_depth h _ _ := h
  fits_heap h _ := h
  fits_depth h _ := h

namespace Eval

variable {before : ByteArray}

theorem step_behind (pos : Position) : (Restriction.behind before).Cuts (step pos) := by
  refine .of_blind (fun st => ?_) fun st st' hst h => ?_
  · exact step_mapSink (·.behind before) pos st
  · rw [step_state h]
    exact hst

theorem printLine_behind (text : String) : (Restriction.behind before).Cuts (printLine text) := by
  intro st hst
  refine .inl ⟨?_, fun st' h => ?_⟩
  · unfold printLine Restriction.behind Sink.writeLine
    dsimp only
    rw [Sink.write_behind hst, Sink.write_unlimited hst]
    rfl
  · rw [printLine_state h]
    exact (st.sink.grows_write _).capacity?_eq.trans hst

/-- A run behind other output is the same run. -/
theorem Built.behind {α : Type} {m : Eval α} (hm : m.Built) {st : State}
    (hst : st.sink.capacity? = none) :
    m { st with sink := st.sink.behind before } =
      (m st).mapState fun st => { st with sink := st.sink.behind before } := by
  rcases hm.cuts step_behind printLine_behind st hst with ⟨hsame, -⟩ | ⟨_, _, _, hstops, _⟩
  · exact hsame
  · exact hstops.elim

end Eval

namespace Interpreter

variable {it : Interpreter}

/-- The same interpreter, with other output before what was written. -/
def behind (it : Interpreter) (before : ByteArray) : Interpreter :=
  { it with sink := it.sink.behind before }

variable (hsink : it.sink.capacity? = none) (before : ByteArray) (fuel : Nat)
include hsink

theorem executeWithin_behind (program : List Stmt) :
    (it.behind before).executeWithin fuel program =
      (it.executeWithin fuel program).map fun (answer, after) => (answer, after.behind before) := by
  have hrun : runProgram fuel program (it.behind before).start = _ :=
    @Eval.Built.behind before _ _ (runProgram_built fuel program) it.start hsink
  rw [executeWithin_eq, executeWithin_eq, hrun]
  cases runProgram fuel program it.start <;> rfl

theorem runWithin_behind (code : String) :
    (it.behind before).runWithin fuel code =
      (it.runWithin fuel code).map fun (answer, after) => (answer, after.behind before) := by
  cases hread : readProgram code with
  | error e =>
    rw [runWithin_of_error hread, runWithin_of_error hread]
    rfl
  | ok program =>
    rw [runWithin_of_ok hread, runWithin_of_ok hread, executeWithin_behind hsink, Option.map_map,
      Option.map_map]
    rfl

end Interpreter

namespace Session

variable {s t after : Session} {fragment : String}

/-- The same session, with other output before what was written. -/
def behind (s : Session) (before : ByteArray) : Session := ⟨s.interpreter.behind before⟩

/-- The same session, with nothing written. -/
def quiet (s : Session) : Session := s.withSink { s.sink with written := .empty }

theorem quiet_behind (s : Session) : s.quiet.behind s.sink.written = s := by
  have hwritten : s.sink.written ++ ByteArray.empty = s.sink.written := ByteArray.append_empty
  unfold quiet behind Interpreter.behind Sink.behind withSink
  dsimp only
  rw [hwritten]
  rfl

theorem takesAll_quiet (hsink : s.sink.TakesAll) : s.quiet.sink.TakesAll :=
  ⟨hsink.capacity?_eq, hsink.flushFails_eq⟩

theorem takesAll_of_quiet_eq (hsink : s.sink.TakesAll) (h : s.quiet = t.quiet) :
    t.sink.TakesAll := by
  have hquiet : t.quiet.sink.TakesAll := h ▸ takesAll_quiet hsink
  exact ⟨hquiet.capacity?_eq, hquiet.flushFails_eq⟩

theorem print_behind (hsink : s.sink.TakesAll) (before : ByteArray) (line? : Option String) :
    (s.behind before).print line? = ((s.print line?).1, (s.print line?).2.behind before) := by
  have hflush : (s.behind before).sink.flush = none := hsink.flush_eq
  cases line? with
  | none => rw [print_none hsink.flush_eq, print_none hflush]
  | some line =>
    have hgrows : s.sink.Grows (s.sink.writeLine line).2 := s.sink.grows_write _
    have hwritten := hsink.of_grows hgrows
    have hbehind := Sink.write_behind hsink.capacity?_eq before (line ++ "\n")
    rw [print_of_done (hsink.write_eq _) hwritten.flush_eq]
    exact print_of_done hbehind hwritten.flush_eq

/-- A fragment that is fed behind other output is fed alike. -/
theorem feed_behind (hsink : s.sink.TakesAll) (before : ByteArray) (fragment : String) :
    (s.behind before).feed fragment =
      (s.feed fragment).map fun (answer, after) => (answer, after.behind before) := by
  rcases feed_cases fragment with ⟨goesOn, hnothing⟩ | hreported
  · rw [hnothing, hnothing]
    rfl
  · have hrun : (s.behind before).interpreter.run fragment = _ :=
      Interpreter.runWithin_behind hsink.capacity?_eq before ampleFuel fragment
    rw [hreported, hreported, hrun]
    cases hquiet : s.interpreter.run fragment with
    | none =>
      have hnone : s.interpreter.runWithin ampleFuel fragment = none := hquiet
      rw [hnone]
      rfl
    | some ending =>
      obtain ⟨answer, it⟩ := ending
      have hsome : s.interpreter.runWithin ampleFuel fragment = some (answer, it) := hquiet
      have hgrows : s.sink.Grows it.sink := Interpreter.runWithin_grows hsome
      rw [hsome]
      exact congrArg some (@print_behind ⟨it⟩ (hsink.of_grows hgrows) before (report answer))

/-! ## Logs -/

/-- What a session does with a fragment. -/
structure Reply where
  /-- The fragment. -/
  fragment : String
  /-- What is written while it is fed. -/
  written : ByteArray
  /-- Whether the session goes on behind it, or the error of its output. -/
  answer : Except SinkError Feed

/-- The replies to fragments up to the one that ends the session, and the session behind them. -/
def log (s : Session) : List String → Option (List Reply × Session)
  | [] => some ([], s)
  | fragment :: rest =>
    match s.feed fragment with
    | none => none
    | some (answer, mid) =>
      let written := mid.sink.written.extract s.sink.written.size mid.sink.written.size
      let reply : Reply := ⟨fragment, written, answer⟩
      match answer with
      | .ok .proceed => (mid.log rest).map fun (replies, after) => (reply :: replies, after)
      | _ => some ([reply], mid)

/-- All that the replies have written, in their order. -/
def transcript : List Reply → ByteArray
  | [] => .empty
  | reply :: rest => reply.written ++ transcript rest

section

variable (hsink : s.sink.TakesAll)
include hsink

/-- What a fragment does is what it does to a session that has written nothing. -/
theorem feed_eq_quiet (fragment : String) :
    s.feed fragment = (s.quiet.feed fragment).map fun (answer, after) =>
      (answer, after.behind s.sink.written) := by
  have hbehind := feed_behind (takesAll_quiet hsink) s.sink.written fragment
  rwa [quiet_behind] at hbehind

/-- To feed fragments is to feed the first of them, and the rest if that does not end the
session. -/
theorem log_cons (fragment : String) (rest : List String) :
    s.log (fragment :: rest) =
      match s.quiet.feed fragment with
      | none => none
      | some (answer, mid) =>
        match answer with
        | .ok .proceed => ((mid.behind s.sink.written).log rest).map fun (replies, after) =>
            (⟨fragment, mid.sink.written, answer⟩ :: replies, after)
        | _ => some ([⟨fragment, mid.sink.written, answer⟩], mid.behind s.sink.written) := by
  rw [log, feed_eq_quiet hsink]
  cases s.quiet.feed fragment with
  | none => rfl
  | some fed =>
    obtain ⟨answer, mid⟩ := fed
    have hown : (s.sink.written ++ mid.sink.written).extract s.sink.written.size
        (s.sink.written ++ mid.sink.written).size = mid.sink.written := by
      rw [ByteArray.size_append]
      exact ByteArray.extract_append_eq_right rfl rfl
    have hwritten : (mid.behind s.sink.written).sink.written = s.sink.written ++ mid.sink.written :=
      rfl
    dsimp only [Option.map_some]
    rw [hwritten, hown]

theorem takesAll_of_feed {answer : Except SinkError Feed}
    (h : s.quiet.feed fragment = some (answer, after)) :
    (after.behind s.sink.written).sink.TakesAll := by
  have hafter := (takesAll_quiet hsink).of_grows (feed_of_takesAll (takesAll_quiet hsink) h).2
  exact ⟨hafter.capacity?_eq, hafter.flushFails_eq⟩

/-- A session ends as its log does. -/
theorem feedAll_eq_log (fragments : List String) :
    s.feedAll fragments = (s.log fragments).map fun (_, after) => (.ok (), after) := by
  induction fragments generalizing s with
  | nil => rfl
  | cons fragment rest ih =>
    rw [feedAll, feed_eq_quiet hsink, log_cons hsink]
    cases hfeed : s.quiet.feed fragment with
    | none => rfl
    | some fed =>
      obtain ⟨answer, mid⟩ := fed
      obtain ⟨⟨goesOn, rfl⟩, -⟩ := feed_of_takesAll (takesAll_quiet hsink) hfeed
      cases goesOn with
      | exit => rfl
      | proceed =>
        dsimp only [Option.map_some]
        rw [ih (takesAll_of_feed hsink hfeed), Option.map_map]
        rfl

/-- The log of a session begins with the reply to its first fragment, and ends with it or goes on
behind it. -/
theorem log_cons_eq_some {rest : List String} {replies : List Reply}
    (h : s.log (fragment :: rest) = some (replies, after)) :
    ∃ goesOn mid, s.quiet.feed fragment = some (.ok goesOn, mid) ∧
      ∃ more, replies = ⟨fragment, mid.sink.written, .ok goesOn⟩ :: more ∧
        (goesOn = .exit ∧ more = [] ∧ after = mid.behind s.sink.written ∨
          goesOn = .proceed ∧ (mid.behind s.sink.written).log rest = some (more, after)) := by
  rw [log_cons hsink] at h
  cases hfeed : s.quiet.feed fragment with
  | none =>
    rw [hfeed] at h
    cases h
  | some fed =>
    obtain ⟨answer, mid⟩ := fed
    obtain ⟨⟨goesOn, rfl⟩, -⟩ := feed_of_takesAll (takesAll_quiet hsink) hfeed
    rw [hfeed] at h
    refine ⟨goesOn, mid, rfl, ?_⟩
    cases goesOn with
    | exit =>
      cases h
      exact ⟨[], rfl, .inl ⟨rfl, rfl, rfl⟩⟩
    | proceed =>
      obtain ⟨⟨more, last⟩, hrest, heq⟩ := Option.map_eq_some_iff.mp h
      cases heq
      exact ⟨more, rfl, .inr ⟨rfl, hrest⟩⟩

/-- What a session has written in the end is what it had written before, and its transcript. -/
theorem written_of_log {fragments : List String} {replies : List Reply}
    (h : s.log fragments = some (replies, after)) :
    after.sink.written = s.sink.written ++ transcript replies := by
  induction fragments generalizing s replies with
  | nil =>
    cases h
    exact ByteArray.append_empty.symm
  | cons fragment rest ih =>
    obtain ⟨goesOn, mid, hfeed, more, rfl, ⟨-, rfl, rfl⟩ | ⟨-, hrest⟩⟩ := log_cons_eq_some hsink h
    · exact congrArg (s.sink.written ++ ·) ByteArray.append_empty.symm
    · rw [ih (takesAll_of_feed hsink hfeed) hrest, transcript, ← ByteArray.append_assoc]
      rfl

end

end Session

end TwinScript
