import TwinScript.Proofs.Eval.Scoping
import TwinScript.Proofs.Eval.Triple

/-!
# Where runs bind names

Names are added to the frame that a statement is executed in and to frames that are made meanwhile,
and no name is ever taken out of a frame. `Heap.GainsIn` says so of two heaps, `Heap.GainsIn.scoped`
makes it a property that the walk over the evaluator carries along, and the rest reads off what it
gives for expressions, statements and the rounds of a loop.

* `Expr.evalWithin_gains`, `Stmt.execWithin_gains`: where a run adds names, whatever its outcome.
* `LoopAt.gains`: a loop whose body is a block adds none to the frames from before it, in no round.
* `Heap.GainsIn.isSome_get?`: where no names are added, the same names are visible.
-/

namespace TwinScript

/-! ## Heaps that gain names -/

/-- The later heap has all frames of the earlier one, each under its parent, and may have more. No
name was lost, and of the frames there were before, only those of `own` may have got new ones. -/
structure Heap.GainsIn (own : FrameId → Prop) (h h' : Heap) : Prop where
  size_le : h.frames.size ≤ h'.frames.size
  above?_eq : ∀ f, f < h.frames.size → h'.above? f = h.above? f
  kept : ∀ f name, h.Binds f name → h'.Binds f name
  added : ∀ f name, f < h.frames.size → h'.Binds f name → h.Binds f name ∨ own f

/-- The frame around each frame is a frame of the heap. -/
def Heap.ParentsExist (h : Heap) : Prop :=
  ∀ f g, h.above? f = some g → g < h.frames.size

namespace Heap

variable {own : FrameId → Prop} {h h' : Heap}

theorem GainsIn.refl (h : Heap) : h.GainsIn own h where
  size_le := Nat.le_refl _
  above?_eq _ _ := rfl
  kept _ _ := id
  added _ _ _ := .inl

/-- A name may be defined in a frame of `own`, in a new frame, and where it is bound already. -/
theorem GainsIn.define (hh : h.GainsIn own h') {f : FrameId} {name : String}
    (hf : (own f ∨ h.frames.size ≤ f) ∨ h'.Binds f name) (v : Val) :
    h.GainsIn own (h'.define f name v) where
  size_le := by
    rw [size_define]
    exact hh.size_le
  above?_eq g hg := by
    rw [above?_define]
    exact hh.above?_eq g hg
  kept g other hg := (binds_define ..).mpr (.inr (hh.kept g other hg))
  added g other hg hbinds := by
    rcases (binds_define ..).mp hbinds with ⟨rfl, rfl, _⟩ | hbefore
    · rcases hf with (hown | hnew) | halready
      · exact .inr hown
      · exact absurd hg (Nat.not_lt.mpr hnew)
      · exact hh.added g other hg halready
    · exact hh.added g other hg hbefore

/-- A name is bound anew where it is bound already, or else in the frame at hand. -/
theorem GainsIn.bind (hh : h.GainsIn own h') {f : FrameId} (hf : own f ∨ h.frames.size ≤ f)
    (name : String) (v : Val) : h.GainsIn own (h'.bind f name v) := by
  rw [bind_eq]
  cases hbinder : h'.binder? f name with
  | none => exact hh.define (.inl hf) v
  | some g => exact hh.define (.inr (binds_of_binder? hbinder)) v

theorem GainsIn.declare (hh : h.GainsIn own h') {f : FrameId} (hf : own f ∨ h.frames.size ≤ f)
    (name : String) (params : List String) (body : List Stmt) :
    h.GainsIn own (h'.declare f name params body) := by
  have hcount : h.GainsIn own { h' with closures := h'.closures + 1 } :=
    ⟨hh.size_le, hh.above?_eq, hh.kept, hh.added⟩
  exact hcount.define (.inl hf) _

/-- A new frame is none of those from before. -/
theorem GainsIn.child (hh : h.GainsIn own h') (f : FrameId) (bs : Bindings) :
    h.GainsIn own (h'.child f bs).2 where
  size_le := by
    rw [size_child]
    exact Nat.le_succ_of_le hh.size_le
  above?_eq g hg := by
    have hne : g ≠ h'.frames.size := Nat.ne_of_lt (Nat.lt_of_lt_of_le hg hh.size_le)
    rw [above?_child, if_neg hne]
    exact hh.above?_eq g hg
  kept g name hg := by
    have hbinds := hh.kept g name hg
    have hne : g ≠ h'.frames.size := by
      rintro rfl
      simp [Binds, here?_of_size_le] at hbinds
    unfold Binds at hbinds ⊢
    rwa [here?_child, if_neg hne]
  added g name hg hbinds := by
    have hne : g ≠ h'.frames.size := Nat.ne_of_lt (Nat.lt_of_lt_of_le hg hh.size_le)
    unfold Binds at hbinds
    rw [here?_child, if_neg hne] at hbinds
    exact hh.added g name hg hbinds

/-- **Visible names.** Where no names are added to the frames from before, the same names are visible
from each of them. -/
theorem GainsIn.isSome_get? (hh : h.GainsIn (fun _ => False) h') (hparents : h.ParentsExist)
    {f : FrameId} (hf : f < h.frames.size) (name : String) :
    (h'.get? f name).isSome = (h.get? f name).isSome := by
  rw [Heap.isSome_get?, Heap.isSome_get?]
  have hbinder : h'.binder? f name = h.binder? f name := by
    apply binder?_congr (fun f g _ => hparents f g) hh.above?_eq _ hf
    intro g hg
    exact ⟨fun hbinds => (hh.added g name hg hbinds).resolve_right id, hh.kept g name⟩
  rw [hbinder]

end Heap

/-! ## Runs -/

/-- A promise about all outcomes holds of the state that one leaves. -/
theorem Outcome.Meets.of_state? {α : Type} {I : State → Prop} {F : EvalError → Prop}
    {P : α → Prop} {o : Outcome α} (ho : o.Meets I F P) {st : State} (h : o.state? = some st) :
    I st := by
  cases o with
  | done a st' =>
    cases h
    exact ho.2
  | failed e st' =>
    cases h
    exact ho.2
  | unfinished | crashed => cases h

namespace Eval

variable {α : Type} {J : Heap → Prop}

/-- A part of a program that leaves the frames alone keeps whatever is true of them. -/
theorem Keeps.of_heap_eq {m : Eval α}
    (h : ∀ st st', (m st).state? = some st' → st'.heap = st.heap) :
    m.Keeps (fun st => J st.heap) (fun _ => True) fun _ => True := by
  intro st hst
  have hafter (st' : State) (hended : (m st).state? = some st') : J st'.heap := by
    rw [h st st' hended]
    exact hst
  cases hr : m st with
  | done a st' => exact ⟨trivial, hafter st' (by rw [hr]; rfl)⟩
  | failed e st' => exact ⟨trivial, hafter st' (by rw [hr]; rfl)⟩
  | unfinished | crashed => trivial

theorem step_keeps_heap (pos : Position) :
    (step pos).Keeps (fun st => J st.heap) (fun _ => True) fun _ => True :=
  .of_heap_eq fun st st' h => by rw [step_state h]

theorem enterCall_keeps_heap (pos : Position) :
    (enterCall pos).Keeps (fun st => J st.heap) (fun _ => True) fun _ => True := by
  refine .of_heap_eq fun st st' h => ?_
  unfold enterCall at h
  split at h
  · cases h
    rfl
  · rw [step_state h]

theorem insideCall_keeps_heap {m : Eval α} {P : α → Prop}
    (hm : m.Keeps (fun st => J st.heap) (fun _ => True) P) (pos : Position) :
    (insideCall pos m).Keeps (fun st => J st.heap) (fun _ => True) P := by
  refine hm.insideCall (enterCall_keeps_heap pos) (.of_heap_eq fun st st' h => ?_)
  unfold leaveCall at h
  split at h
  · cases h
  · cases h
    rfl

end Eval

/-- Names that are added in `own` frames and new ones only: the walk over the evaluator carries this
along from any heap, whatever functions stand in the tree. -/
theorem Heap.GainsIn.scoped (own : FrameId → Prop) (h : Heap) :
    Eval.ScopedRuns (fun _ => True) (fun f => own f ∨ h.frames.size ≤ f) (fun _ => True)
      (fun _ => True) fun m P => m.Keeps (fun st => h.GainsIn own st.heap) (fun _ => True) P where
  result := Eval.Keeps.pure
  fail _ := Eval.Keeps.fail trivial
  bind := Eval.Keeps.bind
  readName _ pos name := .of_heap_eq fun st st' h => by rw [Eval.readName_state h]
  writeName hf _ name := fun st hst => ⟨trivial, hst.bind hf name _⟩
  declare hf _ name params := fun st hst => ⟨trivial, hst.declare hf name params _⟩
  newFrame _ _ := fun st hst => ⟨.inr hst.size_le, hst.child _ _⟩
  printLine text := .of_heap_eq fun st st' h => by rw [Eval.printLine_state h]
  seen_of_own _ := trivial
  plain _ := trivial
  literal _ _ := trivial
  step := Eval.step_keeps_heap
  insideCall := Eval.insideCall_keeps_heap
  unfinished := Eval.Keeps.unfinished
  scope_seen _ := trivial
  functions _ := Stmt.allFunctionsAre_of_forall (fun _ => trivial) _

section

variable {fuel : Nat} {f : FrameId} {st st' : State}

/-- Expressions add names to new frames only. -/
theorem Expr.evalWithin_gains (e : Expr)
    (h : (e.eval (callWithin fuel) f st).state? = some st') :
    st.heap.GainsIn (fun _ => False) st'.heap := by
  have hkeeps := Expr.evalWithin_scoped (Heap.GainsIn.scoped (fun _ => False) st.heap) fuel
    (f := f) trivial (e.functionsAre_of_forall fun _ => trivial)
  exact (hkeeps st (.refl _)).of_state? h

/-- Statements add names to the frame they are executed in and to new ones, and those that enclose
what they bind to new ones only. -/
theorem Stmt.execWithin_gains {own : FrameId → Prop} (s : Stmt) (howns : s.Encloses ∨ own f)
    (h : (s.exec (callWithin fuel) (loopWithin fuel) f st).state? = some st') :
    st.heap.GainsIn own st'.heap := by
  have hkeeps := Stmt.execWithin_scoped (Heap.GainsIn.scoped own st.heap) fuel
    (f := f) trivial (s.functionsAre_of_forall fun _ => trivial) (howns.imp_right .inl)
  exact (hkeeps st (.refl _)).of_state? h

/-- Programs may add names anywhere, and lose none. -/
theorem runProgram_gains (program : List Stmt)
    (h : (runProgram fuel program st).state? = some st') :
    st.heap.GainsIn (fun _ => True) st'.heap := by
  have hscoped := Heap.GainsIn.scoped (fun _ => True) st.heap
  obtain ⟨hcall, hloop⟩ := rules_scoped hscoped fuel
  have hkeeps := runProgram_scoped hscoped.toScoped (.inl trivial) hcall hloop
    (Stmt.allFunctionsAre_of_forall (fun _ => trivial) program)
  exact (hkeeps st (.refl _)).of_state? h

end

/-! ## Rounds of loops -/

/-- The places in a loop between which it goes back and forth. -/
inductive LoopPoint where
  /-- Before the condition. -/
  | condition
  /-- At the start of a round, before the body. -/
  | body

section

variable (f : FrameId) (pos : Position) (condition : Option Expr) (body : Stmt)

/-- A loop that was entered in the state `st₀`, with the fuel `fuel₀`, comes to this point in this
state, with this fuel left. -/
inductive LoopAt (fuel₀ : Nat) (st₀ : State) : LoopPoint → Nat → State → Prop where
  | entered : LoopAt fuel₀ st₀ .condition fuel₀ st₀
  /-- The condition holds, and the round is charged for. -/
  | round {fuel : Nat} {st mid st' : State} (h : LoopAt fuel₀ st₀ .condition (fuel + 1) st)
      (hcondition : loopCondition (callWithin fuel) f condition st = .done true mid)
      (hstep : Eval.step pos mid = .done () st') : LoopAt fuel₀ st₀ .body fuel st'
  /-- The body ends in a way that leads back to the condition. -/
  | again {fuel : Nat} {st st' : State} {flow : Flow} (h : LoopAt fuel₀ st₀ .body fuel st)
      (hbody : body.exec (callWithin fuel) (loopWithin fuel) f st = .done flow st')
      (hflow : flow = .normal ∨ flow = .continuing) : LoopAt fuel₀ st₀ .condition fuel st'

end

namespace LoopAt

variable {f : FrameId} {pos : Position} {condition : Option Expr} {body : Stmt} {fuel₀ fuel : Nat}
  {st₀ st : State} {point : LoopPoint}

/-- Until any point of a loop around a block, names were added to new frames only. -/
theorem gains (hbody : body.Encloses) (h : LoopAt f pos condition body fuel₀ st₀ point fuel st) :
    st₀.heap.GainsIn (fun _ => False) st.heap := by
  have hscoped := Heap.GainsIn.scoped (fun _ => False) st₀.heap
  induction h with
  | entered => exact .refl _
  | @round fuel st mid st' h hcondition hstep ih =>
    have hcall := (rules_scoped hscoped fuel).1
    have hfunctions : ∀ e ∈ condition, e.FunctionsAre fun _ => True :=
      fun e _ => e.functionsAre_of_forall fun _ => trivial
    have hmid := loopCondition_scoped hscoped.toScoped hcall (f := f) trivial hfunctions st ih
    rw [hcondition] at hmid
    have hround := hscoped.step pos mid hmid.2
    rw [hstep] at hround
    exact hround.2
  | @again fuel st st' flow h hexec hflow ih =>
    have hround := Stmt.execWithin_scoped hscoped fuel (f := f) trivial
      (body.functionsAre_of_forall fun _ => trivial) (.inl hbody) st ih
    rw [hexec] at hround
    exact hround.2

end LoopAt

end TwinScript
