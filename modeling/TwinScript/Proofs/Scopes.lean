import TwinScript.Proofs.Eval.Names
import TwinScript.Proofs.Truncation
import Mathlib.Logic.Relation

/-!
# Names stay in their scopes

What a run does to the names in frames, and what that comes to over the life of an interpreter or a
session. `Interpreter.Use` lists everything that may happen to an interpreter; a session is nothing
but a row of such uses (`Session.uses_of_feedAll`).

* `Interpreter.Uses.binds`: a name that is bound in a frame stays bound there.
* `names_stay_in_scope`: which names a run adds where, which names the rounds of a loop see, and
  that no name is lost.
-/

namespace TwinScript

/-! ## Interpreters -/

/-- What may happen to an interpreter: it runs a text or executes a program, with any answer; its
host defines a name in a frame, with any value; or it gets another step limit or sink. -/
inductive Interpreter.Use : Interpreter → Interpreter → Prop where
  | run {it after : Interpreter} {fuel : Nat} {code : String}
      {answer : Except ProgramError (Option Val)}
      (h : it.runWithin fuel code = some (answer, after)) : Use it after
  | execute {it after : Interpreter} {fuel : Nat} {program : List Stmt}
      {answer : Except EvalError (Option Val)}
      (h : it.executeWithin fuel program = some (answer, after)) : Use it after
  | define (it : Interpreter) (f : FrameId) (name : String) (v : Val) :
      Use it { it with heap := it.heap.define f name v }
  | setLimit (it : Interpreter) (limit? : Option Nat) : Use it { it with limit? }
  | setSink (it : Interpreter) (sink : Sink) : Use it { it with sink }

/-- One interpreter turns into the other by being used. -/
abbrev Interpreter.Uses : Interpreter → Interpreter → Prop :=
  Relation.ReflTransGen Interpreter.Use

namespace Interpreter

variable {it after : Interpreter} {fuel : Nat}

theorem executeWithin_gains {program : List Stmt} {answer : Except EvalError (Option Val)}
    (h : it.executeWithin fuel program = some (answer, after)) :
    it.heap.GainsIn (fun _ => True) after.heap := by
  rw [executeWithin_eq, Option.map_eq_some_iff] at h
  obtain ⟨⟨given, st⟩, hrun, heq⟩ := h
  cases heq
  have hgains : it.start.heap.GainsIn (fun _ => True) st.heap :=
    runProgram_gains program (Outcome.state?_of_answer? hrun)
  exact hgains

/-- Running a text loses no names, whether or not it is a program. -/
theorem runWithin_gains {code : String} {answer : Except ProgramError (Option Val)}
    (h : it.runWithin fuel code = some (answer, after)) :
    it.heap.GainsIn (fun _ => True) after.heap := by
  obtain ⟨_, -, -, rfl⟩ | ⟨_, _, -, hexecute, -⟩ := runWithin_cases h
  · exact .refl _
  · exact executeWithin_gains hexecute

/-- No use takes a name out of a frame. -/
theorem Use.binds (h : Use it after) {f : FrameId} {name : String}
    (hname : it.heap.Binds f name) : after.heap.Binds f name := by
  cases h with
  | run h => exact (runWithin_gains h).kept f name hname
  | execute h => exact (executeWithin_gains h).kept f name hname
  | define g other v => exact (Heap.binds_define ..).mpr (.inr hname)
  | setLimit limit? => exact hname
  | setSink sink => exact hname

/-- **Names last.** A name that is bound in a frame stays bound there, however the interpreter is
used. -/
theorem Uses.binds (h : Uses it after) {f : FrameId} {name : String}
    (hname : it.heap.Binds f name) : after.heap.Binds f name := by
  induction h with
  | refl => exact hname
  | tail _ hlast ih => exact hlast.binds ih

end Interpreter

/-! ## Sessions -/

namespace Session

variable {s after : Session}

theorem use_of_print (s : Session) (line? : Option String) :
    Interpreter.Use s.interpreter (s.print line?).2.interpreter := by
  obtain ⟨sink, hsink⟩ :
      ∃ sink, (s.print line?).2.interpreter = { s.interpreter with sink } := by
    unfold print
    dsimp only
    split <;> exact ⟨_, rfl⟩
  rw [hsink]
  exact .setSink _ _

/-- To feed a fragment is to run it and to print, or to do nothing. -/
theorem uses_of_feed {fragment : String} {answer : Except SinkError Feed}
    (h : s.feed fragment = some (answer, after)) :
    Interpreter.Uses s.interpreter after.interpreter := by
  rcases feed_cases fragment with ⟨goesOn, hnothing⟩ | hreported
  · rw [hnothing] at h
    cases h
    exact .refl
  · rw [hreported, Option.map_eq_some_iff] at h
    obtain ⟨⟨given, it⟩, hrun, hreport⟩ := h
    have hprint := use_of_print ⟨it⟩ (report given)
    dsimp only at hreport
    rw [hreport] at hprint
    exact (Relation.ReflTransGen.single (.run hrun)).tail hprint

theorem uses_of_feedAll {fragments : List String} {answer : Except SinkError Unit}
    (h : s.feedAll fragments = some (answer, after)) :
    Interpreter.Uses s.interpreter after.interpreter := by
  induction fragments generalizing s with
  | nil =>
    cases h
    exact .refl
  | cons fragment rest ih =>
    unfold feedAll at h
    split at h
    · cases h
    · next hfeed => exact (uses_of_feed hfeed).trans (ih h)
    · next hfeed =>
      cases h
      exact uses_of_feed hfeed
    · next hfeed =>
      cases h
      exact uses_of_feed hfeed

end Session

/-! ## Scopes -/

/-- **Names stay in scope.** From any frames, and with any outcome, an expression adds names to none
of the frames there were; a statement adds them to the frame that it is executed in at most, and one
that encloses what it binds, such as a block or a conditional or loop around one, to none; and no
frame loses any. So the start of every round of a loop around a block sees the names that were seen
before the loop, and a name stays bound in its frame as long as the interpreter or the session is
used. -/
theorem names_stay_in_scope :
    (∀ (fuel : Nat) (f : FrameId) (st st' : State),
      (∀ e : Expr, (e.eval (callWithin fuel) f st).state? = some st' →
        st.heap.GainsIn (fun _ => False) st'.heap) ∧
      ∀ s : Stmt, (s.exec (callWithin fuel) (loopWithin fuel) f st).state? = some st' →
        st.heap.GainsIn (· = f) st'.heap ∧
        (s.Encloses → st.heap.GainsIn (fun _ => False) st'.heap)) ∧
    (∀ (f : FrameId) (pos : Position) (condition : Option Expr) (body : Stmt) (before : State),
      body.Encloses → before.heap.ParentsExist → f < before.heap.frames.size →
      ∀ fuel₀ point fuel st, LoopAt f pos condition body fuel₀ before point fuel st →
        ∀ name, (st.heap.get? f name).isSome = (before.heap.get? f name).isSome) ∧
    (∀ (it later : Interpreter), it.Uses later →
      ∀ f name, it.heap.Binds f name → later.heap.Binds f name) ∧
    ∀ (s after : Session) (fragments : List String) (answer : Except SinkError Unit),
      s.feedAll fragments = some (answer, after) →
      ∀ f name, s.interpreter.heap.Binds f name → after.interpreter.heap.Binds f name := by
  refine ⟨fun fuel f st st' => ⟨fun e h => e.evalWithin_gains h, fun s h => ⟨?_, fun hs => ?_⟩⟩,
    ?_, fun it later h f name => h.binds, ?_⟩
  · exact s.execWithin_gains (.inr rfl) h
  · exact s.execWithin_gains (.inl hs) h
  · intro f pos condition body before hbody hparents hf fuel₀ point fuel st h name
    exact (h.gains hbody).isSome_get? hparents hf name
  · intro s after fragments answer h f name hname
    exact (Session.uses_of_feedAll h).binds hname

/-- The second round of a loop around a block that binds a name, in the frames of a new session. -/
theorem names_stay_in_scope_of_second_round :
    let body : Stmt := .block [.assign "x" (.literal ⟨1, 1⟩ (.int 1))]
    let s := Session.new .unlimited none
    let before := s.interpreter.start
    ∃ st mid,
      (body.exec (callWithin 1) (loopWithin 1) Heap.root before).state? = some mid ∧
      before.heap.GainsIn (fun _ => False) mid.heap ∧
      LoopAt Heap.root ⟨1, 1⟩ none body 3 before .body 1 st ∧
      (∀ name, (st.heap.get? Heap.root name).isSome = (before.heap.get? Heap.root name).isSome) ∧
      (s.interpreter.Uses (s.interpreter.defineGlobal "y" .nothing) ∧
        Heap.Binds (s.interpreter.defineGlobal "y" .nothing).heap Heap.root moduleVariable) ∧
      ∃ after, s.feedAll [exitCommand] = some (.ok (), after) ∧
        after.interpreter.heap.Binds Heap.root moduleVariable := by
  intro body s before
  obtain ⟨hruns, hloops, huses, hsessions⟩ := names_stay_in_scope
  have hbound : s.interpreter.heap.Binds Heap.root moduleVariable := by decide +kernel
  have hparents : before.heap.ParentsExist := by
    intro f g hg
    rcases f with _ | f
    · cases hg
    · have hnone : before.heap.above? (f + 1) = none := Heap.above?_of_size_le (by
        show 1 ≤ f + 1
        omega)
      rw [hnone] at hg
      cases hg
  have hat : ∃ st, LoopAt Heap.root ⟨1, 1⟩ none body 3 before .body 1 st :=
    ⟨_, .round (.again (.round .entered rfl rfl) rfl (.inl rfl)) rfl rfl⟩
  have hexec : ∃ mid,
      (body.exec (callWithin 1) (loopWithin 1) Heap.root before).state? = some mid := ⟨_, rfl⟩
  have htrim : trimWhiteSpace exitCommand = exitCommand := by decide +kernel
  have hfeed : ∃ after, s.feedAll [exitCommand] = some (.ok (), after) :=
    ⟨s, by simp [Session.feedAll, Session.feed, htrim]⟩
  obtain ⟨st, hat⟩ := hat
  obtain ⟨mid, hexec⟩ := hexec
  obtain ⟨after, hfeed⟩ := hfeed
  have huse : s.interpreter.Uses (s.interpreter.defineGlobal "y" .nothing) :=
    Relation.ReflTransGen.single (.define _ _ _ _)
  have hbody : body.Encloses := trivial
  refine ⟨st, mid, hexec, ((hruns 1 Heap.root before mid).2 body hexec).2 hbody, hat, ?_,
    ⟨huse, huses _ _ huse _ _ hbound⟩, after, hfeed, hsessions s after _ _ hfeed _ _ hbound⟩
  exact hloops _ _ _ body before hbody hparents (by decide +kernel) _ _ _ st hat

end TwinScript
