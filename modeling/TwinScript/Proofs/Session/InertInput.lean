import TwinScript.Proofs.Scopes
import TwinScript.Proofs.Session.Transcripts

/-!
# Bad input is inert

A blank fragment does nothing, and one that is no program does nothing but complain. So a session
without these fragments is the same session: it comes to the same bindings, ends at the same
fragment, and everything that is fed to it besides is answered in the same way. Only the complaints
are missing from its transcript. For this it does not matter what earlier fragments have done, and
whether they failed half way: each fragment starts from the bindings alone, with its own steps and
calls to count.

* `isInert`, `complaint`: which fragments these are, and what is written about them.
* `Session.log_filter`: the log of a session without them.
* `bad_input_is_inert`: this, with what the transcripts have in common, and what no fragment does.
-/

namespace TwinScript

/-- The fragment is blank, or it is neither a program nor the exit command. -/
def isInert (fragment : String) : Bool :=
  let trimmed := trimWhiteSpace fragment
  trimmed.isEmpty || (trimmed != exitCommand && !(readProgram fragment).isOk)

/-- What is written about a fragment that is inert: why it is no program, unless it is blank. -/
def complaint (fragment : String) : ByteArray :=
  if (trimWhiteSpace fragment).isEmpty then .empty
  else
    match readProgram fragment with
    | .ok _ => .empty
    | .error e => ("error: " ++ e.message ++ "\n").toUTF8

namespace Session

variable {s t : Session} {fragment : String}

theorem feed_blank (s : Session) (h : (trimWhiteSpace fragment).isEmpty = true) :
    s.feed fragment = some (.ok .proceed, s) := by
  have hexit : trimWhiteSpace fragment ≠ exitCommand := by
    rw [String.isEmpty_iff.mp h]
    decide
  unfold feed
  dsimp only
  rw [if_neg hexit, if_pos h]

/-- A fragment that is no program is only reported. -/
theorem feed_unreadable (s : Session) (hexit : trimWhiteSpace fragment ≠ exitCommand)
    (hblank : (trimWhiteSpace fragment).isEmpty = false) {e : ProgramError}
    (hread : readProgram fragment = .error e) :
    s.feed fragment = some (s.print (some ("error: " ++ e.message))) := by
  have hrun : s.interpreter.run fragment = some (.error e, s.interpreter) :=
    Interpreter.runWithin_of_error hread ampleFuel s.interpreter
  unfold feed
  dsimp only
  rw [if_neg hexit, hblank, if_neg Bool.false_ne_true, hrun]
  simp [report]

/-- What a session that has written nothing prints is the line and its end. -/
theorem print_quiet (hsink : s.sink.TakesAll) (line : String) :
    s.quiet.print (some line) =
      (.ok .proceed, s.withSink { s.sink with written := (line ++ "\n").toUTF8 }) := by
  have hquiet := takesAll_quiet hsink
  have hline : s.quiet.sink.writeLine line =
      (none, { s.sink with written := (line ++ "\n").toUTF8 }) := by
    have hempty : ByteArray.empty ++ (line ++ "\n").toUTF8 = (line ++ "\n").toUTF8 :=
      ByteArray.empty_append
    rw [Sink.writeLine, Sink.write_unlimited hquiet.capacity?_eq]
    exact congrArg (fun written => (none, { s.sink with written })) hempty
  have hgrows : s.quiet.sink.Grows (s.quiet.sink.writeLine line).2 := s.quiet.sink.grows_write _
  rw [hline] at hgrows
  exact print_of_done hline (hquiet.of_grows hgrows).flush_eq

/-- A fragment that is inert leaves no more than its complaint behind. -/
theorem feed_inert (hsink : s.sink.TakesAll) (h : isInert fragment = true) :
    ∃ mid, s.quiet.feed fragment = some (.ok .proceed, mid) ∧ mid.quiet = s.quiet ∧
      mid.sink.written = complaint fragment := by
  unfold isInert at h
  unfold complaint
  by_cases hblank : (trimWhiteSpace fragment).isEmpty = true
  · rw [if_pos hblank]
    exact ⟨s.quiet, feed_blank _ hblank, rfl, rfl⟩
  · rw [if_neg hblank]
    rw [Bool.not_eq_true] at hblank
    obtain ⟨hexit, hfails⟩ : trimWhiteSpace fragment ≠ exitCommand ∧
        (readProgram fragment).isOk = false := by
      simpa [hblank] using h
    cases hread : readProgram fragment with
    | ok program =>
      rw [hread] at hfails
      cases hfails
    | error e =>
      have hfeed := feed_unreadable s.quiet hexit hblank hread
      rw [print_quiet hsink] at hfeed
      exact ⟨_, hfeed, rfl, rfl⟩

/-! ## Sessions without inert fragments -/

/-- The replies to fragments that are not inert, and the session behind them but for what it has
written. -/
def essence (ending : List Reply × Session) : List Reply × Session :=
  (ending.1.filter (!isInert ·.fragment), ending.2.quiet)

/-- A session without the inert fragments does the same with all others, and comes to the same end.
The induction is on the fragments, for two sessions that are alike but for what they have written:
an inert fragment leaves the one of them as it is, and any other is fed to both. -/
theorem log_filter_of_quiet_eq (hsink : s.sink.TakesAll) (h : s.quiet = t.quiet)
    (fragments : List String) :
    (t.log (fragments.filter (!isInert ·))).map (fun (replies, after) => (replies, after.quiet)) =
      (s.log fragments).map essence := by
  induction fragments generalizing s t with
  | nil =>
    show some ([], t.quiet) = some ([], s.quiet)
    rw [h]
  | cons fragment rest ih =>
    by_cases hinert : isInert fragment = true
    · obtain ⟨mid, hfeed, hquiet, -⟩ := feed_inert hsink hinert
      have hmid : (mid.behind s.sink.written).quiet = t.quiet := hquiet.trans h
      rw [List.filter_cons_of_neg (by simp [hinert]), ih (takesAll_of_feed hsink hfeed) hmid,
        log_cons hsink, hfeed]
      dsimp only
      rw [Option.map_map]
      refine congrArg (Option.map · _) (funext fun ending => ?_)
      simp [essence, hinert]
    · have hsink' := takesAll_of_quiet_eq hsink h
      rw [Bool.not_eq_true] at hinert
      rw [List.filter_cons_of_pos (by simp [hinert]), log_cons hsink, log_cons hsink', ← h]
      cases hfeed : s.quiet.feed fragment with
      | none => rfl
      | some fed =>
        obtain ⟨answer, mid⟩ := fed
        obtain ⟨⟨goesOn, rfl⟩, -⟩ := feed_of_takesAll (takesAll_quiet hsink) hfeed
        cases goesOn with
        | exit =>
          have hquiet : (mid.behind t.sink.written).quiet = (mid.behind s.sink.written).quiet := rfl
          simp [essence, hinert, hquiet]
        | proceed =>
          have hrest := ih (t := mid.behind t.sink.written) (takesAll_of_feed hsink hfeed) rfl
          let reply : Reply := ⟨fragment, mid.sink.written, .ok .proceed⟩
          have hcons := congrArg (Option.map fun ending => (reply :: ending.1, ending.2)) hrest
          simpa [Function.comp_def, essence, reply, hinert] using hcons

/-- What is written about a fragment that is inert is its complaint, and the session goes on. -/
theorem complaint_of_log (hsink : s.sink.TakesAll) {fragments : List String} {replies : List Reply}
    (h : s.log fragments = some (replies, t)) :
    ∀ reply ∈ replies, isInert reply.fragment = true →
      reply.answer = .ok .proceed ∧ reply.written = complaint reply.fragment := by
  induction fragments generalizing s replies with
  | nil =>
    cases h
    simp
  | cons fragment rest ih =>
    obtain ⟨goesOn, mid, hfeed, more, rfl, hends⟩ := log_cons_eq_some hsink h
    rw [List.forall_mem_cons]
    constructor
    · intro hinert
      obtain ⟨mid', hfeed', -, hwritten⟩ := feed_inert hsink hinert
      rw [hfeed] at hfeed'
      cases hfeed'
      exact ⟨rfl, hwritten⟩
    · rcases hends with ⟨-, rfl, -⟩ | ⟨-, hrest⟩
      · simp
      · exact ih (takesAll_of_feed hsink hfeed) hrest

/-- No fragment unbinds a global name. -/
theorem global?_of_feed {answer : Except SinkError Feed} (h : s.feed fragment = some (answer, t))
    (name : String) (hname : (s.interpreter.global? name).isSome = true) :
    (t.interpreter.global? name).isSome = true := by
  have hroot (it : Interpreter) :
      (it.global? name).isSome = true ↔ it.heap.Binds Heap.root name := by
    have hget : (it.global? name).isSome =
        (it.heap.binderWithin? name (0 + 1) Heap.root).isSome :=
      it.heap.isSome_get? Heap.root name
    rw [hget, Heap.binderWithin?_succ]
    by_cases hbinds : it.heap.Binds Heap.root name
    · simp [hbinds]
    · cases it.heap.above? Heap.root <;> simp [hbinds, Heap.binderWithin?]
  rw [hroot] at hname ⊢
  exact (uses_of_feed h).binds hname

end Session

/-- **Bad input is inert.** Take any session whose output is always accepted, and any fragments. If
those are left out that are blank, or neither a program nor the exit command, then the replies to
the others are the same up to the same end, and so is the session behind them but for what it has
written. What it has written differs by what was written about the fragments left out, and that is
one line with the error, or nothing if the fragment is blank. No fragment ends the session with an
error, or unbinds a global name. -/
theorem bad_input_is_inert (s : Session) (hsink : s.sink.TakesAll) :
    (∀ fragments : List String,
      (s.log (fragments.filter (!isInert ·))).map (fun (replies, after) => (replies, after.quiet)) =
          (s.log fragments).map (fun (replies, after) =>
            (replies.filter (!isInert ·.fragment), after.quiet)) ∧
        s.feedAll fragments = (s.log fragments).map (fun (_, after) => (.ok (), after)) ∧
        ∀ replies after, s.log fragments = some (replies, after) →
          after.sink.written = s.sink.written ++ Session.transcript replies ∧
          ∀ reply ∈ replies, isInert reply.fragment = true →
            reply.answer = .ok .proceed ∧ reply.written = complaint reply.fragment) ∧
    ∀ (fragment : String) (answer : Except SinkError Feed) (after : Session),
      s.feed fragment = some (answer, after) →
      (∃ goesOn, answer = .ok goesOn) ∧
        ∀ name, (s.interpreter.global? name).isSome = true →
          (after.interpreter.global? name).isSome = true := by
  refine ⟨fun fragments => ⟨Session.log_filter_of_quiet_eq hsink rfl fragments,
    Session.feedAll_eq_log hsink fragments, fun replies after h => ?_⟩,
    fun fragment answer after h => ?_⟩
  · exact ⟨Session.written_of_log hsink h, Session.complaint_of_log hsink h⟩
  · exact ⟨(Session.feed_of_takesAll hsink h).1, Session.global?_of_feed h⟩

/-- An expression that breaks off is one line in the transcript of a session that is left behind
it. -/
theorem bad_input_is_inert_of_unfinished_sum :
    let s := Session.new .unlimited none
    let fragments := ["1 +", ".exit"]
    s.sink.TakesAll ∧ isInert "1 +" = true ∧ fragments.filter (!isInert ·) = [".exit"] ∧
      (s.log [".exit"]).map (fun (replies, after) => (replies, after.quiet)) =
        (s.log fragments).map (fun (replies, after) =>
          (replies.filter (!isInert ·.fragment), after.quiet)) ∧
      (∃ replies after, s.log fragments = some (replies, after) ∧
        after.sink.written = s.sink.written ++ Session.transcript replies ∧
        ∀ reply ∈ replies, isInert reply.fragment = true →
          reply.answer = .ok .proceed ∧ reply.written = complaint reply.fragment) ∧
      complaint "1 +" = "error: parse error: Unexpected end of input.\n".toUTF8 ∧
      ∃ after, s.feed "1 +" = some (.ok .proceed, after) ∧
        (after.interpreter.global? moduleVariable).isSome = true := by
  intro s fragments
  have hsink : s.sink.TakesAll := ⟨rfl, rfl⟩
  have hinert : isInert "1 +" = true := by decide +kernel
  have hkept : fragments.filter (!isInert ·) = [".exit"] := by decide +kernel
  have hcomplaint : complaint "1 +" = "error: parse error: Unexpected end of input.\n".toUTF8 := by
    decide +kernel
  have hbound : (s.interpreter.global? moduleVariable).isSome = true := by decide +kernel
  have hexit (t : Session) : t.feed ".exit" = some (.ok .exit, t) := by
    have htrim : trimWhiteSpace ".exit" = exitCommand := by decide +kernel
    simp [Session.feed, htrim]
  obtain ⟨mid, hquiet, -, -⟩ := Session.feed_inert hsink hinert
  have hfeed := Session.feed_eq_quiet hsink "1 +"
  have hlog := Session.log_cons hsink "1 +" [".exit"]
  rw [hquiet] at hfeed hlog
  simp only [Session.log, hexit] at hlog
  obtain ⟨hfragments, hfeeds⟩ := bad_input_is_inert s hsink
  obtain ⟨hsame, -, htranscript⟩ := hfragments fragments
  rw [hkept] at hsame
  exact ⟨hsink, hinert, hkept, hsame, ⟨_, _, hlog, htranscript _ _ hlog⟩, hcomplaint, _, hfeed,
    (hfeeds "1 +" _ _ hfeed).2 moduleVariable hbound⟩

end TwinScript
