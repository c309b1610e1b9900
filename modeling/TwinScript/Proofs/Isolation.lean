import TwinScript.Proofs.Eval.Scoping
import TwinScript.Proofs.Region

/-!
# Heaps are isolated

A run in a frame touches what can be reached from that frame, and what it makes itself, and nothing
else: it neither changes other frames nor depends on them. Both are said at once by comparing two
runs. `State.InStep` relates states that two runs have come to from states of their own, while they
did the same in a region of the frames; `Eval.Agrees` says that a part of a program keeps the runs
in step, and `State.InStep.scoped` that all effects do which stay in the region. The walk over the
evaluator then gives it for expressions, statements and calls.

* `Expr.evalWithin_agrees`, `Stmt.execWithin_agrees`, `callWithin_agrees`: runs from states that
  agree on what can be reached.
* `heap_isolated`: what a run leaves alone, what it depends on, and what follows for functions that
  share no frames.
-/

namespace TwinScript

/-! ## Sinks -/

namespace Sink

/-- How many more bytes the sink takes; there is no limit if this is `none`. -/
def room? (s : Sink) : Option Nat :=
  s.capacity?.map (· - s.written.size)

/-- Whether and how much of a text is written depends on the room only. -/
theorem write_eq (s : Sink) (text : String) :
    s.write text =
      if ∀ room, s.room? = some room → text.toUTF8.size ≤ room then
        (none, { s with written := s.written ++ text.toUTF8 })
      else
        (some .full, { s with written := s.written ++ text.toUTF8.extract 0 (s.room?.getD 0) }) := by
  unfold write room?
  cases s.capacity? with
  | none => simp
  | some capacity => simp

/-- What is written takes its room. -/
theorem room?_append (s : Sink) (bytes : ByteArray) :
    room? { s with written := s.written ++ bytes } = s.room?.map (· - bytes.size) := by
  simp [room?, Option.map_map, Function.comp_def, Nat.sub_sub]

/-- Sinks with as much room take the same part of a text. -/
theorem write_alike {s s' : Sink} (h : s.room? = s'.room?) (text : String) :
    ∃ error? bytes, s.write text = (error?, { s with written := s.written ++ bytes }) ∧
      s'.write text = (error?, { s' with written := s'.written ++ bytes }) := by
  rw [write_eq, write_eq, ← h]
  split
  · exact ⟨none, _, rfl, rfl⟩
  · exact ⟨some .full, _, rfl, rfl⟩

end Sink

/-! ## Two runs in step -/

/-- The same limit holds, and as much of it is used up: in steps, in depth and in the sink. -/
structure State.SameMeters (st st' : State) : Prop where
  room?_eq : st.sink.room? = st'.sink.room?
  limit?_eq : st.limit? = st'.limit?
  steps_eq : st.steps = st'.steps
  depth_eq : st.depth = st'.depth

/-- Two runs have come to the states `st` and `st'` from `base` and `base'`, and have done the same
in the frames of `R`: these have the same contents, the same was printed and charged for, and the
same numbers of frames and closures are in use. All other frames are as they were. -/
structure State.InStep (R : FrameId → Prop) (base base' st st' : State) : Prop where
  heap : Heap.InStep R base.heap base'.heap st.heap st'.heap
  output : ∃ out, st.sink.written = base.sink.written ++ out ∧
    st'.sink.written = base'.sink.written ++ out
  meters : st.SameMeters st'

/-- The outcomes are the same result, which has `P`, or the same error, in states related by `I`; or
neither has ended, or both have crashed. -/
inductive Outcome.Agree {α : Type} (I : State → State → Prop) (P : α → Prop) :
    Outcome α → Outcome α → Prop where
  | done {a : α} {st st' : State} (ha : P a) (h : I st st') :
      Outcome.Agree I P (.done a st) (.done a st')
  | failed {e : EvalError} {st st' : State} (h : I st st') :
      Outcome.Agree I P (.failed e st) (.failed e st')
  | unfinished : Outcome.Agree I P .unfinished .unfinished
  | crashed : Outcome.Agree I P .crashed .crashed

/-- An outcome that agrees with itself leaves a state that is related to itself. -/
theorem Outcome.Agree.of_state? {α : Type} {I : State → State → Prop} {P : α → Prop}
    {o : Outcome α} (ho : o.Agree I P o) {st : State} (h : o.state? = some st) : I st st := by
  cases ho with
  | done _ hst =>
    cases h
    exact hst
  | failed hst =>
    cases h
    exact hst
  | unfinished | crashed => cases h

/-- From related states the part of a program has outcomes that agree. -/
def Eval.Agrees {α : Type} (I : State → State → Prop) (m : Eval α) (P : α → Prop) : Prop :=
  ∀ st st', I st st' → (m st).Agree I P (m st')

namespace Eval

variable {α β : Type} {I : State → State → Prop}

theorem Agrees.pure {P : α → Prop} {a : α} (ha : P a) : Agrees I (Pure.pure a) P :=
  fun _ _ h => .done ha h

theorem Agrees.fail {P : α → Prop} (e : EvalError) : Agrees I (Eval.fail e) P :=
  fun _ _ h => .failed h

theorem Agrees.bind {m : Eval α} {next : α → Eval β} {P : α → Prop} {P' : β → Prop}
    (hm : Agrees I m P) (hnext : ∀ a, P a → Agrees I (next a) P') :
    Agrees I (m >>= next) P' := by
  intro st st' hst
  have h := hm st st' hst
  rw [bind_apply, bind_apply]
  generalize m st = o at h ⊢
  generalize m st' = o' at h ⊢
  cases h with
  | done ha hmid => exact hnext _ ha _ _ hmid
  | failed hmid => exact .failed hmid
  | unfinished => exact .unfinished
  | crashed => exact .crashed

theorem Agrees.alwaysThen {m : Eval α} {last : Eval Unit} {P : α → Prop} (hm : Agrees I m P)
    (hlast : Agrees I last fun _ => True) : Agrees I (alwaysThen m last) P := by
  intro st st' hst
  have h := hm st st' hst
  unfold Eval.alwaysThen
  generalize m st = o at h ⊢
  generalize m st' = o' at h ⊢
  cases h with
  | done ha hmid => exact hlast.bind (fun _ _ => .pure ha) _ _ hmid
  | failed hmid => exact hlast.bind (fun _ _ => .fail _) _ _ hmid
  | unfinished => exact .unfinished
  | crashed => exact .crashed

end Eval

/-! ## The effects -/

section effects

variable {R : FrameId → Prop} {base base' : State}

open Eval

theorem step_agrees (pos : Position) :
    Agrees (State.InStep R base base') (step pos) fun _ => True := by
  rintro ⟨heap, sink, steps, limit?, depth⟩ ⟨heap', sink', _, _, depth'⟩
    ⟨hheap, houtput, ⟨hroom, rfl, rfl, hdepth⟩⟩
  have hmeters : State.SameMeters ⟨heap, sink, steps + 1, limit?, depth⟩
      ⟨heap', sink', steps + 1, limit?, depth'⟩ := ⟨hroom, rfl, rfl, hdepth⟩
  unfold step
  cases limit? with
  | none => exact .done trivial ⟨hheap, houtput, hmeters⟩
  | some limit =>
    dsimp only
    split
    · exact .failed ⟨hheap, houtput, hmeters⟩
    · exact .done trivial ⟨hheap, houtput, hmeters⟩

theorem enterCall_agrees (pos : Position) :
    Agrees (State.InStep R base base') (enterCall pos) fun _ => True := by
  intro st st' h
  unfold enterCall
  rw [← h.meters.depth_eq]
  split
  · exact .failed h
  · exact step_agrees pos _ _
      ⟨h.heap, h.output, h.meters.room?_eq, h.meters.limit?_eq, h.meters.steps_eq, rfl⟩

/-- Functions are left at the same depth in both runs. -/
theorem leaveCall_agrees : Agrees (State.InStep R base base') leaveCall fun _ => True := by
  rintro ⟨heap, sink, steps, limit?, depth⟩ ⟨heap', sink', steps', limit?', _⟩
    ⟨hheap, houtput, ⟨hroom, hlimit, hsteps, rfl⟩⟩
  unfold leaveCall
  cases depth with
  | zero => exact .crashed
  | succ depth => exact .done trivial ⟨hheap, houtput, ⟨hroom, hlimit, hsteps, rfl⟩⟩

theorem insideCall_agrees {α : Type} {m : Eval α} {P : α → Prop}
    (hm : Agrees (State.InStep R base base') m P) (pos : Position) :
    Agrees (State.InStep R base base') (insideCall pos m) P :=
  (enterCall_agrees pos).bind fun _ _ => hm.alwaysThen leaveCall_agrees

theorem readName_agrees {f : FrameId} (hf : R f) (pos : Position) (name : String) :
    Agrees (State.InStep R base base') (readName f pos name) (Val.ScopedIn R) := by
  intro st st' h
  unfold readName
  rw [h.heap.get?_eq hf name]
  cases hv : st.heap.get? f name with
  | none => exact .failed h
  | some v => exact .done (h.heap.scopedIn_get? hf hv) h

/-- An effect on the frames alone keeps runs in step if it keeps the heaps in step. -/
theorem State.InStep.setHeap {st st' : State} (h : State.InStep R base base' st st')
    {heap heap' : Heap} (hheap : Heap.InStep R base.heap base'.heap heap heap') :
    State.InStep R base base' { st with heap } { st' with heap := heap' } :=
  ⟨hheap, h.output, h.meters.room?_eq, h.meters.limit?_eq, h.meters.steps_eq, h.meters.depth_eq⟩

theorem writeName_agrees {f : FrameId} (hf : R f) (name : String) {v : Val}
    (hv : v.ScopedIn R) :
    Agrees (State.InStep R base base') (writeName f name v) fun _ => True :=
  fun _ _ h => .done trivial (h.setHeap (h.heap.bind hf name hv))

theorem declare_agrees {f : FrameId} {body : List Stmt} (hf : R f)
    (hbody : Stmt.AllFunctionsAre (R ·.scope) body) (name : String) (params : List String) :
    Agrees (State.InStep R base base') (declare f name params body) fun _ => True :=
  fun _ _ h => .done trivial (h.setHeap (h.heap.declare hf name params hbody))

/-- The same is printed in both runs. -/
theorem State.InStep.print {st st' : State} (h : State.InStep R base base' st st')
    (bytes : ByteArray) :
    State.InStep R base base'
      { st with sink := { st.sink with written := st.sink.written ++ bytes } }
      { st' with sink := { st'.sink with written := st'.sink.written ++ bytes } } where
  heap := h.heap
  output := by
    obtain ⟨out, hout, hout'⟩ := h.output
    exact ⟨out ++ bytes, by rw [hout, ByteArray.append_assoc],
      by rw [hout', ByteArray.append_assoc]⟩
  meters := ⟨by rw [Sink.room?_append, Sink.room?_append, h.meters.room?_eq],
    h.meters.limit?_eq, h.meters.steps_eq, h.meters.depth_eq⟩

theorem printLine_agrees (text : String) :
    Agrees (State.InStep R base base') (printLine text) fun _ => True := by
  intro st st' h
  obtain ⟨error?, bytes, hwrite, hwrite'⟩ := Sink.write_alike h.meters.room?_eq (text ++ "\n")
  unfold printLine Sink.writeLine
  rw [hwrite, hwrite']
  cases error? with
  | none => exact .done trivial (h.print bytes)
  | some cause => exact .failed (h.print bytes)

section

variable (hnew : ∀ g, base.heap.frames.size ≤ g → R g)
include hnew

/-- A new frame has the same number in both runs, and is in the region. -/
theorem newFrame_agrees {f : FrameId} (hf : R f) {bs : Bindings}
    (hbs : ∀ name v, bs.get? name = some v → v.ScopedIn R) :
    Agrees (State.InStep R base base') (newFrame f bs) R := by
  intro st st' h
  have hframe : R st.heap.frames.size := hnew _ h.heap.size_le
  have hafter := h.setHeap (h.heap.child hf hframe hbs)
  show Outcome.Agree _ _ (.done st.heap.frames.size _) (.done st'.heap.frames.size _)
  rw [← h.heap.ids.size_eq]
  exact .done hframe hafter

/-- What stays in the region keeps runs in step, if new frames are part of it. -/
theorem State.InStep.scoped :
    ScopedRuns R R (R ·.scope) (Val.ScopedIn R) (Agrees (State.InStep R base base')) where
  result := Agrees.pure
  fail _ := Agrees.fail _
  bind := Agrees.bind
  readName := readName_agrees
  writeName hf hv name := writeName_agrees hf name hv
  declare := declare_agrees
  newFrame hf hbs := newFrame_agrees hnew hf hbs
  printLine := printLine_agrees
  seen_of_own := id
  plain := Val.scopedIn_of_not_closure
  step := step_agrees
  literal hc hbody := ⟨hc, hbody⟩
  functions hc := hc.2
  insideCall := insideCall_agrees
  unfinished := fun _ _ _ => .unfinished
  scope_seen hc := hc.1

end

end effects

/-! ## Runs from states that agree -/

section

variable {s : FrameId} {st st' : State}

/-- Runs start in step, if the states agree on what can be reached. -/
theorem State.InStep.start (hids : st.heap.SameIds st'.heap) (hmeters : st.SameMeters st')
    (hagree : st.heap.AgreeOn (st.heap.Reaches s) st'.heap) :
    State.InStep (st.heap.Region s) st st' st st' :=
  ⟨.start hids hagree, ⟨.empty, by simp, by simp⟩, hmeters⟩

theorem State.InStep.refl (s : FrameId) (st : State) :
    State.InStep (st.heap.Region s) st st st st :=
  .start ⟨rfl, rfl⟩ ⟨rfl, rfl, rfl, rfl⟩ (.refl _)

variable (hstart : State.InStep (st.heap.Region s) st st' st st') (fuel : Nat)
include hstart

end

end TwinScript
