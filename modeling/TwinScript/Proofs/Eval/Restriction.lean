import TwinScript.Proofs.Eval.Growth

/-!
# Runs with less room

Two runs of one program are compared, one of which has less room: a smaller step limit, say, or a
sink that is full earlier. As long as the room suffices, they are the same run. From where it does
not, the one has stopped with an error, and whatever the other still does comes on top of what it
has done by then.

A `Restriction` says what the room is and how a run stops that has used it up. `Restriction.Cuts`
compares the runs of one part of a program, and composes along `do`.

* `Eval.Built.cuts`: a restriction cuts every run, if it cuts the two effects that use up room.
-/

namespace TwinScript

/-- A way to leave a run less room, which neither frames nor the depth of calls depend on. -/
structure Restriction where
  /-- The same state with less room. -/
  restrict : State → State
  /-- What the state has used up leaves the restricted run going. -/
  Fits : State → Prop
  /-- The error says that the room was used up. -/
  Stops : EvalError → Prop
  /-- The restricted run has stopped in the first state, and the other has come to the second, which
  does not fit. -/
  Beyond : State → State → Prop
  beyond_of_grows : ∀ {cut st st'}, Beyond cut st → st.Grows st' → Beyond cut st'
  beyond_depth : ∀ {cut st}, Beyond cut st → ∀ inner outer,
    Beyond { cut with depth := inner } { st with depth := outer }
  restrict_heap : ∀ st heap, restrict { st with heap } = { restrict st with heap }
  restrict_depth : ∀ st depth, restrict { st with depth } = { restrict st with depth }
  fits_heap : ∀ {st}, Fits st → ∀ heap, Fits { st with heap }
  fits_depth : ∀ {st}, Fits st → ∀ depth, Fits { st with depth }

/-- The same outcome, in another state. -/
def Outcome.mapState {α : Type} (f : State → State) : Outcome α → Outcome α
  | .done a st => .done a (f st)
  | .failed e st => .failed e (f st)
  | .unfinished => .unfinished
  | .crashed => .crashed

theorem Outcome.answer?_mapState {α : Type} {o : Outcome α} {answer : Except EvalError α}
    {st : State} (h : o.answer? = some (answer, st)) (f : State → State) :
    (o.mapState f).answer? = some (answer, f st) := by
  rcases answer?_eq_some h with ⟨a, rfl, rfl⟩ | ⟨e, rfl, rfl⟩ <;> rfl

/-- Charging a step takes no notice of the sink. -/
theorem Eval.step_mapSink (change : Sink → Sink) (pos : Position) (st : State) :
    Eval.step pos { st with sink := change st.sink } =
      (Eval.step pos st).mapState fun st => { st with sink := change st.sink } := by
  unfold Eval.step
  dsimp only
  cases st.limit? with
  | none => rfl
  | some limit =>
    dsimp only
    split <;> rfl

namespace Restriction

variable {α β : Type} (R : Restriction)

/-- The first outcome is the second with less room, or has stopped where the second went beyond. -/
def SameOrCut (o whole : Outcome α) : Prop :=
  (o = whole.mapState R.restrict ∧ ∀ st, whole.state? = some st → R.Fits st) ∨
    ∃ e cut, o = .failed e cut ∧ R.Stops e ∧ ∀ st, whole.state? = some st → R.Beyond cut st

/-- With less room, the part of a program is the same until it is cut. -/
def Cuts (m : Eval α) : Prop :=
  ∀ st, R.Fits st → R.SameOrCut (m (R.restrict st)) (m st)

variable {R}

theorem restrict_heap_eq (st : State) : (R.restrict st).heap = st.heap := by
  have h := congrArg State.heap (R.restrict_heap st st.heap)
  exact h

theorem restrict_depth_eq (st : State) : (R.restrict st).depth = st.depth := by
  have h := congrArg State.depth (R.restrict_depth st st.depth)
  exact h

/-- An effect that takes no notice of the room, and uses none of it up, is the same. -/
theorem Cuts.of_blind {m : Eval α}
    (hsame : ∀ st, m (R.restrict st) = (m st).mapState R.restrict)
    (hfits : ∀ st st', R.Fits st → (m st).state? = some st' → R.Fits st') : R.Cuts m :=
  fun st hst => .inl ⟨hsame st, fun st' => hfits st st' hst⟩

theorem Cuts.pure (a : α) : R.Cuts (Pure.pure a) :=
  .of_blind (fun _ => rfl) fun st st' hst h => by cases h; exact hst

/-- Where the first part is the same or cut, and what follows is the same or cut behind it, so is
the whole. -/
theorem SameOrCut.bind {m : Eval α} {next : α → Eval β} {st : State}
    (hm : R.SameOrCut (m (R.restrict st)) (m st))
    (hnext : ∀ a mid, m st = .done a mid → R.Fits mid →
      R.SameOrCut (next a (R.restrict mid)) (next a mid))
    (hgrows : ∀ a, (next a).Grows) :
    R.SameOrCut ((m >>= next) (R.restrict st)) ((m >>= next) st) := by
  unfold SameOrCut
  rw [Eval.bind_apply, Eval.bind_apply]
  rcases hm with ⟨hsame, hfits⟩ | ⟨e, cut, hcut, hstops, hbeyond⟩
  · -- the first part is the same, and the second starts where there is room
    rw [hsame]
    cases hr : m st with
    | done a mid =>
      rw [hr] at hfits
      exact hnext a mid hr (hfits mid rfl)
    | failed e mid =>
      rw [hr] at hfits
      exact .inl ⟨rfl, hfits⟩
    | unfinished | crashed => exact .inl ⟨rfl, fun st' h => by cases h⟩
  · -- the first part is cut, and whatever the second does comes on top
    rw [hcut]
    refine .inr ⟨e, cut, rfl, hstops, fun st' h => ?_⟩
    cases hr : m st with
    | done a mid =>
      rw [hr] at h hbeyond
      exact R.beyond_of_grows (hbeyond mid rfl) (hgrows a mid st' h)
    | failed e mid =>
      rw [hr] at h hbeyond
      exact hbeyond st' h
    | unfinished | crashed =>
      rw [hr] at h
      cases h

theorem Cuts.bind {m : Eval α} {next : α → Eval β} (hm : R.Cuts m)
    (hnext : ∀ a, R.Cuts (next a)) (hgrows : ∀ a, (next a).Grows) : R.Cuts (m >>= next) :=
  fun st hst => SameOrCut.bind (hm st hst) (fun a mid _ hmid => hnext a mid hmid) hgrows

/-- An effect on frames takes no notice of the room. -/
theorem cuts_setHeap (change : Heap → α × Heap) :
    R.Cuts fun st => .done (change st.heap).1 { st with heap := (change st.heap).2 } := by
  refine .of_blind (fun st => ?_) fun st st' hst h => ?_
  · rw [restrict_heap_eq]
    exact congrArg (Outcome.done _) (R.restrict_heap st _).symm
  · cases h
    exact R.fits_heap hst _

theorem readName_cuts (f : FrameId) (pos : Position) (name : String) :
    R.Cuts (Eval.readName f pos name) := by
  refine .of_blind (fun st => ?_) fun st st' hst h => ?_
  · unfold Eval.readName
    rw [restrict_heap_eq]
    cases st.heap.get? f name <;> rfl
  · rw [Eval.readName_state h]
    exact hst

/-- Entering a call uses up no more than the step that it is charged for. -/
theorem enterCall_cuts {pos : Position} (hstep : R.Cuts (Eval.step pos)) :
    R.Cuts (Eval.enterCall pos) := by
  intro st hst
  unfold Eval.enterCall
  rw [restrict_depth_eq]
  split
  · exact .inl ⟨rfl, fun st' h => by cases h; exact hst⟩
  · rw [← R.restrict_depth]
    exact hstep _ (R.fits_depth hst _)

/-- Where there is room, leaving a function is the same. -/
theorem leave_mapState (o : Outcome α) :
    (o.mapState R.restrict).leave = o.leave.mapState R.restrict := by
  cases o with
  | done a st =>
    simp only [Outcome.mapState, Outcome.leave, restrict_depth_eq]
    split
    · rfl
    · rw [← R.restrict_depth]
  | failed e st =>
    simp only [Outcome.mapState, Outcome.leave, restrict_depth_eq]
    split
    · rfl
    · rw [← R.restrict_depth]
  | unfinished | crashed => rfl

/-- A function is left behind its body, whether or not that was cut. -/
theorem SameOrCut.leave {o whole : Outcome α} {depth : Nat} (hdepth : 0 < depth)
    (ho : o.LeavesDepth depth) (h : R.SameOrCut o whole) : R.SameOrCut o.leave whole.leave := by
  rcases h with ⟨rfl, hfits⟩ | ⟨e, cut, rfl, hstops, hbeyond⟩
  · refine .inl ⟨leave_mapState whole, fun st' hst' => ?_⟩
    obtain ⟨st, hst, rfl⟩ := Outcome.state?_leave hst'
    exact R.fits_depth (hfits st hst) _
  · -- the cut run leaves the function as well, from where it was cut
    have hentered : cut.depth ≠ 0 := Nat.ne_of_gt (Nat.lt_of_lt_of_le hdepth ho)
    refine .inr ⟨e, { cut with depth := cut.depth - 1 }, if_neg hentered, hstops,
      fun st' hst' => ?_⟩
    obtain ⟨st, hst, rfl⟩ := Outcome.state?_leave hst'
    exact R.beyond_depth (hbeyond st hst) _ _

/-- Whatever is done inside a call is the same or cut if it is so by itself. -/
theorem Cuts.insideCall {m : Eval α} {pos : Position} (hstep : R.Cuts (Eval.step pos))
    (hbuilt : m.Built) (hm : R.Cuts m) : R.Cuts (Eval.insideCall pos m) := by
  intro st hst
  refine SameOrCut.bind (enterCall_cuts hstep st hst) (fun _ mid henter hmid => ?_) fun _ =>
    hbuilt.grows.thenLeave
  have hdepth : 0 < (R.restrict mid).depth := by
    rw [restrict_depth_eq, Eval.enterCall_done henter]
    exact Nat.succ_pos _
  rw [Eval.alwaysThen_leaveCall, Eval.alwaysThen_leaveCall]
  exact SameOrCut.leave hdepth (hbuilt.leavesDepth _) (hm mid hmid)

end Restriction

/-- **Less room, the same run until it is cut.** A restriction cuts every run, if it cuts the effects
that may use up room: charging a step, and printing a line. -/
theorem Eval.Built.cuts {R : Restriction} (hstep : ∀ pos, R.Cuts (Eval.step pos))
    (hprint : ∀ text, R.Cuts (Eval.printLine text)) {α : Type} {m : Eval α} (hm : m.Built) :
    R.Cuts m := by
  induction hm with
  | result a => exact .pure a
  | fail _ => exact .of_blind (fun _ => rfl) fun st st' hst h => by cases h; exact hst
  | unfinished => exact .of_blind (fun _ => rfl) fun st st' _ h => by cases h
  | bind _ hnext ihm ihnext => exact ihm.bind ihnext fun a => (hnext a).grows
  | step pos => exact hstep pos
  | insideCall hm pos ih => exact .insideCall (hstep pos) hm ih
  | readName f pos name => exact Restriction.readName_cuts f pos name
  | writeName f name v => exact Restriction.cuts_setHeap fun heap => ((), heap.bind f name v)
  | declare f name params body =>
    exact Restriction.cuts_setHeap fun heap => ((), heap.declare f name params body)
  | newFrame f bindings => exact Restriction.cuts_setHeap fun heap => heap.child f bindings
  | printLine text => exact hprint text

end TwinScript
