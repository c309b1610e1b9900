import TwinScript.Proofs.Heap
import Mathlib.Logic.Relation

/-!
# Shadowing

A name means what the nearest frame binds it to that binds it at all. Here that rule is a relation
on the tree of frames (`Heap.Nearest`), said without the search that `Heap.binder?` makes, and the
two agree where every frame is younger than the frame around it (`Heap.binder?_eq_some_iff`). All
trees that grow from a root are of that kind (`Heap.Step.parentsOlder`).

* `Heap.updated_define`: what a definition changes, as seen from every frame at once.
* `shadowing_laws`: when an assignment succeeds, and what assignments and definitions change.
-/

namespace TwinScript

namespace Heap

/-! ## The way up -/

/-- Every frame is younger than the frame around it. -/
def ParentsOlder (h : Heap) : Prop :=
  ∀ f g, h.above? f = some g → g < f

/-- The frame `g` is on the chain of `f`: it is `f` itself, or on the chain of the frame around
`f`. -/
inductive OnChain (h : Heap) : FrameId → FrameId → Prop where
  | self {f : FrameId} : OnChain h f f
  | above {f parent g : FrameId} (hparent : h.above? f = some parent) (hg : OnChain h parent g) :
      OnChain h f g

/-- The first frame with `P` on the chain of `f` is `g`. -/
inductive Nearest (h : Heap) (P : FrameId → Prop) : FrameId → FrameId → Prop where
  | here {f : FrameId} (hf : P f) : Nearest h P f f
  | above {f parent g : FrameId} (hf : ¬ P f) (hparent : h.above? f = some parent)
      (hg : Nearest h P parent g) : Nearest h P f g

section

variable {h h' : Heap} {P P' : FrameId → Prop} {f g : FrameId}

theorem Nearest.holds (hg : h.Nearest P f g) : P g := by
  induction hg with
  | here hf => exact hf
  | above _ _ _ ih => exact ih

/-- There is a nearest frame with `P` if there is any on the chain. -/
theorem exists_nearest_iff : (∃ g, h.Nearest P f g) ↔ ∃ g, h.OnChain f g ∧ P g := by
  constructor
  · rintro ⟨g, hg⟩
    induction hg with
    | @here f hf => exact ⟨f, .self, hf⟩
    | above _ hparent _ ih =>
      obtain ⟨g, hchain, hg⟩ := ih
      exact ⟨g, .above hparent hchain, hg⟩
  · rintro ⟨g, hchain, hg⟩
    induction hchain with
    | self => exact ⟨_, .here hg⟩
    | @above f parent g hparent _ ih =>
      by_cases hf : P f
      · exact ⟨f, .here hf⟩
      · obtain ⟨first, hfirst⟩ := ih hg
        exact ⟨first, .above hf hparent hfirst⟩

/-- Which frame is nearest depends only on the chain and on which frames have the property. -/
theorem Nearest.congr (habove : ∀ f, h'.above? f = h.above? f) (hP : ∀ f, P' f ↔ P f)
    (hg : h.Nearest P f g) : h'.Nearest P' f g := by
  induction hg with
  | here hf => exact .here ((hP _).mpr hf)
  | above hf hparent _ ih =>
    exact .above (fun h => hf ((hP _).mp h)) ((habove _).trans hparent) ih

/-- One more frame with the property makes no difference where it is not found. -/
theorem Nearest.of_or {k : FrameId} (hg : h.Nearest (fun j => P j ∨ j = k) f g) (hne : g ≠ k) :
    h.Nearest P f g := by
  induction hg with
  | here hf => exact .here (hf.resolve_right hne)
  | above hf hparent _ ih => exact .above (fun h => hf (.inl h)) hparent (ih hne)

end

/-! ## Finding the binder -/

variable {h : Heap} {f g : FrameId} {name : String}

theorem nearest_of_binderWithin? {hops : Nat} (hg : h.binderWithin? name hops f = some g) :
    h.Nearest (h.Binds · name) f g := by
  induction hops generalizing f with
  | zero => cases hg
  | succ hops ih =>
    rw [binderWithin?_succ] at hg
    split at hg
    · next hf =>
      cases hg
      exact .here hf
    · next hf =>
      obtain ⟨parent, hparent, hg⟩ := Option.bind_eq_some_iff.mp hg
      exact .above hf hparent (ih hg)

/-- Where parents are older, more hops than the number of the frame are enough. -/
theorem binderWithin?_of_nearest (holder : h.ParentsOlder)
    (hg : h.Nearest (h.Binds · name) f g) {hops : Nat} (hhops : f < hops) :
    h.binderWithin? name hops f = some g := by
  induction hg generalizing hops with
  | here hf =>
    obtain ⟨hops, rfl⟩ := Nat.exists_eq_succ_of_ne_zero (Nat.ne_of_gt (Nat.zero_lt_of_lt hhops))
    rw [binderWithin?_succ, if_pos hf]
  | above hf hparent _ ih =>
    obtain ⟨hops, rfl⟩ := Nat.exists_eq_succ_of_ne_zero (Nat.ne_of_gt (Nat.zero_lt_of_lt hhops))
    have hless : _ < hops := Nat.lt_of_lt_of_le (holder _ _ hparent) (Nat.le_of_lt_succ hhops)
    rw [binderWithin?_succ, if_neg hf, hparent]
    exact ih hless

/-- **The search finds the nearest binder.** -/
theorem binder?_eq_some_iff (holder : h.ParentsOlder) :
    h.binder? f name = some g ↔ h.Nearest (h.Binds · name) f g :=
  ⟨nearest_of_binderWithin?, fun hg => binderWithin?_of_nearest holder hg (Nat.lt_succ_self f)⟩

/-- A name is found if some frame on the chain binds it. -/
theorem isSome_binder?_iff (holder : h.ParentsOlder) :
    (h.binder? f name).isSome ↔ ∃ g, h.OnChain f g ∧ h.Binds g name := by
  rw [← exists_nearest_iff, Option.isSome_iff_exists]
  simp only [binder?_eq_some_iff holder]

/-! ## Trees that grow from a root -/

/-- What may be done to a tree of frames: a new frame is made under one of them, or a name is
defined in one or assigned from one. An assignment that fails leaves the tree as it is. -/
inductive Step (h : Heap) : Heap → Prop where
  | child {f : FrameId} (hf : f < h.frames.size) : Step h (h.child f []).2
  | define {f : FrameId} (hf : f < h.frames.size) (name : String) (v : Val) :
      Step h (h.define f name v)
  | assign {f : FrameId} (hf : f < h.frames.size) {name : String} {v : Val} {after : Heap}
      (hafter : h.assign? f name v = some after) : Step h after

/-- The tree has grown from a root without names. -/
abbrev Grown : Heap → Prop := Relation.ReflTransGen Step initial

theorem ParentsOlder.define (holder : h.ParentsOlder) (k : FrameId) (name : String) (v : Val) :
    (h.define k name v).ParentsOlder := by
  intro f g hg
  rw [above?_define] at hg
  exact holder f g hg

theorem ParentsOlder.child (holder : h.ParentsOlder) (hf : f < h.frames.size) (bs : Bindings) :
    (h.child f bs).2.ParentsOlder := by
  intro g parent hparent
  rw [above?_child] at hparent
  split at hparent
  · next hg =>
    cases hparent
    exact hg ▸ hf
  · exact holder g parent hparent

theorem parentsOlder_initial : initial.ParentsOlder := by
  intro f g hg
  cases f with
  | zero => cases hg
  | succ f =>
    have hnone : initial.above? (f + 1) = none := above?_of_size_le (Nat.succ_le_succ f.zero_le)
    rw [hnone] at hg
    cases hg

/-- No step puts a frame under a younger one. -/
theorem Step.parentsOlder {after : Heap} (hstep : h.Step after) (holder : h.ParentsOlder) :
    after.ParentsOlder := by
  cases hstep with
  | child hf => exact holder.child hf []
  | define hf name v => exact holder.define _ name v
  | assign hf hafter =>
    obtain ⟨k, _, rfl⟩ := Option.map_eq_some_iff.mp hafter
    exact holder.define k _ _

theorem Grown.parentsOlder (hh : h.Grown) : h.ParentsOlder := by
  induction hh with
  | refl => exact parentsOlder_initial
  | tail _ hstep ih => exact hstep.parentsOlder ih

/-! ## What a definition changes -/

/-- From one reading of the frames to the next, `name` has come to stand for `v` in the frames with
`Hit`, and nothing else is read differently. -/
def Updated (read read' : FrameId → String → Option Val) (Hit : FrameId → Prop) (name : String)
    (v : Val) : Prop :=
  ∀ g other, (Hit g ∧ other = name → read' g other = some v) ∧
    (¬ (Hit g ∧ other = name) → read' g other = read g other)

section

variable {read read' : FrameId → String → Option Val} {Hit Hit' : FrameId → Prop} {v : Val}

theorem Updated.congr (hread : Updated read read' Hit name v) (hHit : ∀ g, Hit' g ↔ Hit g) :
    Updated read read' Hit' name v := by
  intro g other
  rw [hHit g]
  exact hread g other

/-- What nothing has written to is read as it was. -/
theorem Updated.of_not_hit (hHit : ∀ g, ¬ Hit g) : Updated read read Hit name v :=
  fun g _ => ⟨fun hhit => absurd hhit.1 (hHit g), fun _ => rfl⟩

end

section

variable {k : FrameId} (hk : k < h.frames.size) (v : Val)
include hk

theorem updated_here?_define (name : String) :
    Updated h.here? (h.define k name v).here? (· = k) name v := by
  intro g other
  rw [here?_define h k g name other v hk]
  exact ⟨fun hhit => if_pos hhit, fun hmiss => if_neg hmiss⟩

/-- Behind a definition a name is found as before, but for its frame being one more binder. -/
theorem binder?_define_eq_some_iff (holder : h.ParentsOlder) {b : FrameId} :
    (h.define k name v).binder? g name = some b ↔
      h.Nearest (fun j => h.Binds j name ∨ j = k) g b := by
  have hbinds (j : FrameId) : (h.define k name v).Binds j name ↔ h.Binds j name ∨ j = k := by
    rw [binds_define]
    constructor
    · rintro (⟨rfl, -, -⟩ | hbefore)
      · exact .inr rfl
      · exact .inl hbefore
    · rintro (hbefore | rfl)
      · exact .inr hbefore
      · exact .inl ⟨rfl, rfl, hk⟩
  rw [binder?_eq_some_iff (holder.define k name v)]
  exact ⟨.congr (fun f => (above?_define ..).symm) fun j => (hbinds j).symm,
    .congr (fun f => above?_define ..) hbinds⟩

/-- Where the frame of a definition is not found, the same frame is found as before. -/
theorem binder?_define_of_not_nearest (holder : h.ParentsOlder)
    (hmiss : ¬ h.Nearest (fun j => h.Binds j name ∨ j = k) g k) :
    (h.define k name v).binder? g name = h.binder? g name := by
  cases hb : (h.define k name v).binder? g name with
  | some b =>
    have hb := (binder?_define_eq_some_iff hk v holder).mp hb
    have hne : b ≠ k := by
      rintro rfl
      exact hmiss hb
    exact ((binder?_eq_some_iff holder).mpr (hb.of_or hne)).symm
  | none =>
    cases hb' : h.binder? g name with
    | none => rfl
    | some b =>
      -- a binder from before is on the chain still
      obtain ⟨c, hchain, hc⟩ := exists_nearest_iff.mp ⟨b, (binder?_eq_some_iff holder).mp hb'⟩
      obtain ⟨first, hfirst⟩ :=
        (exists_nearest_iff (P := fun j => h.Binds j name ∨ j = k)).mpr ⟨c, hchain, .inl hc⟩
      rw [(binder?_define_eq_some_iff hk v holder).mpr hfirst] at hb
      cases hb

/-- **What a definition changes.** It is read from the frames whose nearest binder is the frame
where it was made, which counts as a binder now. -/
theorem updated_get?_define (holder : h.ParentsOlder) (name : String) :
    Updated h.get? (h.define k name v).get?
      (fun g => h.Nearest (fun j => h.Binds j name ∨ j = k) g k) name v := by
  have hhere := updated_here?_define hk v name
  intro g other
  constructor
  · rintro ⟨hhit, rfl⟩
    rw [get?, (binder?_define_eq_some_iff hk v holder).mpr hhit]
    exact (hhere k other).1 ⟨rfl, rfl⟩
  · intro hmiss
    by_cases hother : other = name
    · subst hother
      have hmiss : ¬ h.Nearest (fun j => h.Binds j other ∨ j = k) g k := fun h => hmiss ⟨h, rfl⟩
      rw [get?, get?, binder?_define_of_not_nearest hk v holder hmiss]
      refine Option.bind_congr fun b hb => (hhere b other).2 ?_
      rintro ⟨rfl, -⟩
      rw [← binder?_define_of_not_nearest hk v holder hmiss] at hb
      exact hmiss ((binder?_define_eq_some_iff hk v holder).mp hb)
    · have hsame (j : FrameId) : (h.define k name v).here? j other = h.here? j other :=
        (hhere j other).2 fun hhit => hother hhit.2
      have hbinder : (h.define k name v).binder? g other = h.binder? g other := by
        refine @binder?_congr h _ g other (fun _ => True) (fun _ _ _ _ => trivial)
          (fun j _ => above?_define ..) (fun j _ => ?_) trivial
        rw [Binds, hsame j]
        rfl
      rw [get?, get?, hbinder]
      exact Option.bind_congr fun j _ => hsame j

end

/-! ## What an assignment changes -/

section

variable {k : FrameId} (holder : h.ParentsOlder) (hk : h.Nearest (h.Binds · name) f k)
include holder hk

/-- A name is found in one frame. -/
theorem Nearest.eq {b : FrameId} (hb : h.Nearest (h.Binds · name) f b) : b = k :=
  Option.some.inj
    (((binder?_eq_some_iff holder).mpr hb).symm.trans ((binder?_eq_some_iff holder).mpr hk))

/-- A frame that binds the name already is no new binder. -/
theorem nearest_or_iff :
    h.Nearest (fun j => h.Binds j name ∨ j = k) g k ↔
      ∃ b, h.Nearest (h.Binds · name) f b ∧ h.Nearest (h.Binds · name) g b := by
  have hbinds (j : FrameId) : (h.Binds j name ∨ j = k) ↔ h.Binds j name :=
    ⟨fun hj => hj.elim id fun e => e ▸ hk.holds, .inl⟩
  constructor
  · intro hg
    exact ⟨k, hk, hg.congr (fun _ => rfl) fun j => (hbinds j).symm⟩
  · rintro ⟨b, hb, hg⟩
    obtain rfl := Nearest.eq holder hk hb
    exact hg.congr (fun _ => rfl) hbinds

end

/-- Whoever binds a name is a frame. -/
theorem lt_size_of_binds {k : FrameId} (hk : h.Binds k name) : k < h.frames.size := by
  refine Nat.lt_of_not_le fun hsize => ?_
  rw [Binds, here?_of_size_le hsize] at hk
  cases hk

/-- **What an assignment changes.** It is read from the frames with the same nearest binder. -/
theorem updated_assign? (holder : h.ParentsOlder) (f : FrameId) (name : String) (v : Val) :
    let after := (h.assign? f name v).getD h
    Updated h.get? after.get?
        (fun g => ∃ b, h.Nearest (h.Binds · name) f b ∧ h.Nearest (h.Binds · name) g b) name v ∧
      Updated h.here? after.here? (h.Nearest (h.Binds · name) f) name v := by
  intro after
  cases hb : h.binder? f name with
  | none =>
    have hsame : after = h := by simp [after, assign?, hb]
    have hnone (g : FrameId) : ¬ h.Nearest (h.Binds · name) f g := by
      intro hg
      rw [(binder?_eq_some_iff holder).mpr hg] at hb
      cases hb
    rw [hsame]
    exact ⟨.of_not_hit fun g ⟨b, hb, _⟩ => hnone b hb, .of_not_hit hnone⟩
  | some k =>
    have hdefined : after = h.define k name v := by simp [after, assign?, hb]
    have hk := (binder?_eq_some_iff holder).mp hb
    have hsize := lt_size_of_binds hk.holds
    rw [hdefined]
    constructor
    · refine (updated_get?_define hsize v holder name).congr fun g => ?_
      exact (nearest_or_iff holder hk).symm
    · refine (updated_here?_define hsize v name).congr fun g => ?_
      exact ⟨Nearest.eq holder hk, fun e => e ▸ hk⟩

end Heap

/-- **The laws of shadowing.** In every tree of frames that has grown from a root: a name can be
assigned from a frame exactly if some frame on its chain binds it. The frames with the same nearest
binder then read the new value, and all others what they have read before; in its own bindings only
that binder has changed. If the assignment fails, nothing has. A definition is read from the frames
whose nearest binder is the frame where it was made, which counts as a binder then; everything else
is read as before, and no other frame's own bindings have changed. -/
theorem shadowing_laws {h : Heap} (hh : h.Grown) {f : FrameId} (hf : f < h.frames.size)
    (name : String) (v : Val) :
    let assigned := (h.assign? f name v).getD h
    let defined := h.define f name v
    ((h.assign? f name v).isSome ↔ ∃ g, h.OnChain f g ∧ h.Binds g name) ∧
    Heap.Updated h.get? assigned.get?
      (fun g => ∃ b, h.Nearest (h.Binds · name) f b ∧ h.Nearest (h.Binds · name) g b) name v ∧
    Heap.Updated h.here? assigned.here? (h.Nearest (h.Binds · name) f) name v ∧
    (h.assign? f name v = none → ∀ g other, assigned.get? g other = h.get? g other) ∧
    Heap.Updated h.get? defined.get?
      (fun g => h.Nearest (fun j => h.Binds j name ∨ j = f) g f) name v ∧
    Heap.Updated h.here? defined.here? (· = f) name v := by
  intro assigned defined
  have holder := hh.parentsOlder
  obtain ⟨hget, hhere⟩ := h.updated_assign? holder f name v
  have hsucceeds : (h.assign? f name v).isSome ↔ ∃ g, h.OnChain f g ∧ h.Binds g name := by
    rw [Heap.assign?, Option.isSome_map]
    exact Heap.isSome_binder?_iff holder
  refine ⟨hsucceeds, hget, hhere, fun hfails g other => (hget g other).2 ?_,
    Heap.updated_get?_define hf v holder name, Heap.updated_here?_define hf v name⟩
  rintro ⟨⟨b, hb, -⟩, -⟩
  have hbound := hsucceeds.mpr (Heap.exists_nearest_iff.mp ⟨b, hb⟩)
  rw [hfails] at hbound
  cases hbound

/-- A root that binds a name, a child that binds it again, and another that does not. An assignment
from the second child reaches the root and passes by the first. -/
theorem shadowing_laws_of_siblings :
    let h := (((Heap.initial.define 0 "x" (.int 1)).child 0 []).2.define 1 "x" (.int 2)).child 0 []
    h.2.Grown ∧ 2 < h.2.frames.size ∧
      let assigned := (h.2.assign? 2 "x" (.int 3)).getD h.2
      assigned.get? 2 "x" = some (.int 3) ∧ assigned.get? 0 "x" = some (.int 3) ∧
        assigned.get? 1 "x" = h.2.get? 1 "x" := by
  intro h
  have hgrown : h.2.Grown := by
    refine (((Relation.ReflTransGen.refl.tail (.define (f := 0) ?_ "x" (.int 1))).tail
      (.child (f := 0) ?_)).tail (.define (f := 1) ?_ "x" (.int 2))).tail (.child (f := 0) ?_) <;>
      decide
  have hroot : h.2.Nearest (h.2.Binds · "x") 0 0 := .here (by decide)
  have hsecond : h.2.Nearest (h.2.Binds · "x") 2 0 := .above (by decide) rfl hroot
  have hfirst : h.2.Nearest (h.2.Binds · "x") 1 1 := .here (by decide)
  have hsize : 2 < h.2.frames.size := by decide
  obtain ⟨-, hget, -⟩ := shadowing_laws hgrown hsize "x" (.int 3)
  refine ⟨hgrown, hsize, (hget 2 "x").1 ⟨⟨0, hsecond, hsecond⟩, rfl⟩,
    (hget 0 "x").1 ⟨⟨0, hsecond, hroot⟩, rfl⟩, (hget 1 "x").2 ?_⟩
  rintro ⟨⟨b, hb, hb'⟩, -⟩
  have hzero : b = 0 := Heap.Nearest.eq hgrown.parentsOlder hsecond hb
  have hone : b = 1 := Heap.Nearest.eq hgrown.parentsOlder hfirst hb'
  exact absurd (hzero.symm.trans hone) (by decide)

end TwinScript
