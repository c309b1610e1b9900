import TwinScript.Heap

/-!
# Where names are found

Everything that a program can learn of a frame is the frame around it (`Heap.above?`) and what its
names stand for (`Heap.here?`). A name is looked for in one frame after the other on the way up, so
heaps that agree on a set of frames which no way up leaves find it in the same frame
(`Heap.binder?_congr`). What defining a name and making a frame do is said in these terms, also for
numbers that no frame has, and the bindings of a call are its arguments.
-/

namespace TwinScript

namespace Heap

/-- The frame around `f`. -/
def above? (h : Heap) (f : FrameId) : Option FrameId :=
  (h.frames[f]?).bind (·.parent?)

/-- The frame `f` itself binds `name`. -/
def Binds (h : Heap) (f : FrameId) (name : String) : Prop :=
  (h.here? f name).isSome

instance (h : Heap) (f : FrameId) (name : String) : Decidable (h.Binds f name) :=
  inferInstanceAs (Decidable (_ = true))

/-! ## Looking a name up -/

variable {h h' : Heap} {f g : FrameId} {name : String}

/-- A name is bound in the frame itself, or looked for in the frame around it. -/
theorem binderWithin?_succ (h : Heap) (name : String) (hops : Nat) (f : FrameId) :
    h.binderWithin? name (hops + 1) f =
      if h.Binds f name then some f else (h.above? f).bind (h.binderWithin? name hops) := by
  rw [binderWithin?]
  cases hf : h.frames[f]? with
  | none => simp [Binds, here?, above?, hf]
  | some frame => cases hp : frame.parent? <;> simp [Binds, here?, above?, hf, hp]

theorem binds_of_binderWithin? {hops : Nat} (hg : h.binderWithin? name hops f = some g) :
    h.Binds g name := by
  induction hops generalizing f with
  | zero => cases hg
  | succ hops ih =>
    rw [binderWithin?_succ] at hg
    split at hg
    · next hbinds =>
      cases hg
      exact hbinds
    · obtain ⟨parent, _, hparent⟩ := Option.bind_eq_some_iff.mp hg
      exact ih hparent

/-- The frame in which a name is found binds it. -/
theorem binds_of_binder? (hg : h.binder? f name = some g) : h.Binds g name :=
  binds_of_binderWithin? hg

/-- A name has a value wherever it is found. -/
theorem isSome_get? (h : Heap) (f : FrameId) (name : String) :
    (h.get? f name).isSome = (h.binder? f name).isSome := by
  unfold get?
  cases hg : h.binder? f name with
  | none => rfl
  | some g => exact binds_of_binder? hg

section

variable {R : FrameId → Prop} (hup : ∀ f g, R f → h.above? f = some g → R g)
include hup

theorem binderWithin?_within {hops : Nat} (hf : R f) (hg : h.binderWithin? name hops f = some g) :
    R g := by
  induction hops generalizing f with
  | zero => cases hg
  | succ hops ih =>
    rw [binderWithin?_succ] at hg
    split at hg
    · cases hg
      exact hf
    · obtain ⟨parent, habove, hparent⟩ := Option.bind_eq_some_iff.mp hg
      exact ih (hup f parent hf habove) hparent

/-- A name is found in no frame that the way up does not come to. -/
theorem binder?_within (hf : R f) (hg : h.binder? f name = some g) : R g :=
  binderWithin?_within hup hf hg

section

variable (habove : ∀ f, R f → h'.above? f = h.above? f)
  (hbinds : ∀ f, R f → (h'.Binds f name ↔ h.Binds f name))
include habove hbinds

theorem binderWithin?_congr {hops : Nat} (hf : R f) :
    h'.binderWithin? name hops f = h.binderWithin? name hops f := by
  induction hops generalizing f with
  | zero => rfl
  | succ hops ih =>
    rw [binderWithin?_succ, binderWithin?_succ, habove f hf]
    simp only [hbinds f hf]
    split
    · rfl
    · cases hparent : h.above? f with
      | none => rfl
      | some parent => exact ih (hup f parent hf hparent)

/-- **Where a name is found** depends only on the frames on the way up: on their parents, and on
which of them bind it. -/
theorem binder?_congr (hf : R f) : h'.binder? f name = h.binder? f name :=
  binderWithin?_congr hup habove hbinds hf

end

end

/-! ## Defining names -/

/-- Nothing is defined in a frame that does not exist. -/
theorem define_of_size_le (hf : h.frames.size ≤ f) (name : String) (v : Val) :
    h.define f name v = h := by
  have hframes : (h.frames.modify f fun frame =>
      { frame with bindings := frame.bindings.insert name v }) = h.frames := by
    apply Array.ext_getElem?
    intro g
    rw [Array.getElem?_modify]
    split
    · next hg =>
      rw [← hg, Array.getElem?_eq_none hf]
      rfl
    · rfl
  unfold define
  rw [hframes]

/-- Defining a name leaves the other frames exactly as they are. -/
theorem frames_define_of_ne (hg : g ≠ f) (h : Heap) (name : String) (v : Val) :
    (h.define f name v).frames[g]? = h.frames[g]? := by
  simp only [define, Array.getElem?_modify, if_neg hg.symm]

@[simp] theorem above?_define (h : Heap) (f g : FrameId) (name : String) (v : Val) :
    (h.define f name v).above? g = h.above? g := by
  by_cases hg : f = g
  · subst hg
    cases hf : h.frames[f]? with
    | none => simp [above?, define, Array.getElem?_modify, hf]
    | some frame => simp [above?, define, Array.getElem?_modify, hf]
  · simp [above?, frames_define_of_ne (Ne.symm hg)]

/-- What a name stands for behind a definition, in any frame. -/
theorem here?_define_eq (h : Heap) (f g : FrameId) (name other : String) (v : Val) :
    (h.define f name v).here? g other =
      if g = f ∧ other = name ∧ f < h.frames.size then some v else h.here? g other := by
  by_cases hf : f < h.frames.size
  · simp [here?_define h f g name other v hf, hf]
  · rw [define_of_size_le (Nat.le_of_not_lt hf)]
    simp [hf]

/-- Behind a definition, what a frame binds is the value defined or was bound there before. -/
theorem here?_define_cases {other : String} {v w : Val}
    (hw : (h.define f name v).here? g other = some w) : w = v ∨ h.here? g other = some w := by
  rw [here?_define_eq] at hw
  split at hw
  · exact .inl (Option.some.inj hw).symm
  · exact .inr hw

/-- Behind a definition a frame binds what it has bound before, and the name defined if it is that
frame. -/
theorem binds_define (h : Heap) (f g : FrameId) (name other : String) (v : Val) :
    (h.define f name v).Binds g other ↔
      (g = f ∧ other = name ∧ f < h.frames.size) ∨ h.Binds g other := by
  unfold Binds
  rw [here?_define_eq]
  split
  · next heq => simp [heq]
  · next hne => simp [hne]

/-! ## Making frames -/

/-- A new frame leaves the others exactly as they are. -/
theorem frames_child_of_ne (hg : g ≠ h.frames.size) (f : FrameId) (bs : Bindings) :
    (h.child f bs).2.frames[g]? = h.frames[g]? := by
  simp only [child, Array.getElem?_push, if_neg hg]

theorem above?_child (h : Heap) (f g : FrameId) (bs : Bindings) :
    (h.child f bs).2.above? g = if g = h.frames.size then some f else h.above? g := by
  by_cases hg : g = h.frames.size
  · simp [above?, child, hg]
  · simp [above?, frames_child_of_ne hg, hg]

/-- A number that no frame has is that of a frame without parent and names. -/
theorem above?_of_size_le (hf : h.frames.size ≤ f) : h.above? f = none := by
  simp [above?, Array.getElem?_eq_none hf]

theorem here?_of_size_le (hf : h.frames.size ≤ f) (name : String) : h.here? f name = none := by
  simp [here?, Array.getElem?_eq_none hf]

/-- Nothing is bound at first. -/
theorem here?_initial (f : FrameId) (name : String) : initial.here? f name = none := by
  cases f with
  | zero => rfl
  | succ f => exact here?_of_size_le (Nat.succ_le_succ (Nat.zero_le f)) name

end Heap

/-- The arguments of a call bind nothing else to its parameters. -/
theorem Bindings.get?_ofArguments_mem {params : List String} {args : List Val} {name : String}
    {v : Val} (h : (Bindings.ofArguments params args).get? name = some v) : v ∈ args := by
  have hfold (pairs : List (String × Val)) (bs : Bindings)
      (hget : (pairs.foldl (fun bs p => bs.insert p.1 p.2) bs).get? name = some v) :
      (∃ p ∈ pairs, p.2 = v) ∨ bs.get? name = some v := by
    induction pairs generalizing bs with
    | nil => exact .inr hget
    | cons p rest ih =>
      rcases ih _ hget with ⟨q, hq, rfl⟩ | hins
      · exact .inl ⟨q, List.mem_cons_of_mem _ hq, rfl⟩
      · rw [Bindings.get?_insert] at hins
        split at hins
        · cases hins
          exact .inl ⟨p, List.mem_cons_self, rfl⟩
        · exact .inr hins
  rcases hfold (params.zip args) [] h with ⟨p, hp, rfl⟩ | hnone
  · exact (List.of_mem_zip (a := p.1) (b := p.2) hp).2
  · cases hnone

end TwinScript
