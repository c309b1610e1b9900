import TwinScript.Eval.Operators
import TwinScript.Proofs.Region
import TwinScript.Proofs.Shadowing
import Mathlib.Data.List.Forall2

/-!
# Values and heaps up to the numbers of frames

Two heaps may have the same frames under different numbers, and one of them may have more. A pairing
says which frame is which. Values that are no functions are paired with themselves only, functions
with those that differ in their frame at most, which is the one paired with it, while the functions
that stand in their bodies are in frames that are paired with themselves; and heaps are paired frame
by frame (`Heap.Renamed`). All operations on heaps keep that up, if a new frame is paired with
a new frame or with one that was left out so far (`Heap.Renamed.adopt`), and no operator can tell
values that are paired.

* `Heap.Linked`: what is asked of a heap to be paired with itself.
* `Heap.Renamed.get?`: a name stands for values that are paired.
* `Heap.Renamed.exists_of_reaches`: what can be reached has been paired.
-/

namespace TwinScript

/-- Which frame is which. -/
abbrev Pairing := FrameId → FrameId → Prop

/-- The pairing with one more pair. -/
def Pairing.plus (ρ : Pairing) (a b : FrameId) : Pairing := fun f g => ρ f g ∨ f = a ∧ g = b

/-- The frame in which the function was declared is paired with itself. -/
def Pairing.Fixes (ρ : Pairing) (c : Closure) : Prop := ρ c.scope c.scope

/-- The functions differ in their frame at most. -/
structure Closure.Renamed (ρ : Pairing) (c c' : Closure) : Prop where
  id_eq : c.id = c'.id
  name_eq : c.name = c'.name
  params_eq : c.params = c'.params
  body_eq : c.body = c'.body
  scope : ρ c.scope c'.scope
  standing : Stmt.AllFunctionsAre ρ.Fixes c.body

/-- The values are the same, or functions that are paired. -/
inductive Val.Renamed (ρ : Pairing) : Val → Val → Prop
  | closure {c c' : Closure} (h : c.Renamed ρ c') : Val.Renamed ρ (.closure c) (.closure c')
  | plain {v : Val} (h : ∀ c, v ≠ .closure c) : Val.Renamed ρ v v

/-- Every frame of `h` is paired with one frame of `h'`. The frames around the two are paired, or
there are none, and so are the values that they bind. As many functions have been made in one heap
as in the other. -/
structure Heap.Renamed (ρ : Pairing) (h h' : Heap) : Prop where
  closures_eq : h.closures = h'.closures
  older : h.ParentsOlder
  older' : h'.ParentsOlder
  covers : ∀ f, f < h.frames.size → ∃ g, ρ f g
  exist : ∀ {f g}, ρ f g → f < h.frames.size ∧ g < h'.frames.size
  unique : ∀ {f g f' g'}, ρ f g → ρ f' g' → (f = f' ↔ g = g')
  above : ∀ {f g}, ρ f g → Option.Rel ρ (h.above? f) (h'.above? g)
  here : ∀ {f g}, ρ f g → ∀ name, Option.Rel (Val.Renamed ρ) (h.here? f name) (h'.here? g name)

/-- The references of the heap lead to frames: parents are older than their children, and functions
were declared in frames that exist, as were those that stand in their bodies. -/
structure Heap.Linked (h : Heap) : Prop where
  older : h.ParentsOlder
  captures : ∀ f name v, h.here? f name = some v → v.ScopedIn (· < h.frames.size)

/-- A wider relation holds of more pairs. -/
theorem Option.Rel.mono {α β : Type} {R S : α → β → Prop} (hRS : ∀ {a b}, R a b → S a b)
    {x : Option α} {y : Option β} (h : Option.Rel R x y) : Option.Rel S x y := by
  cases h with
  | none => exact .none
  | some h => exact .some (hRS h)

variable {ρ ρ' : Pairing}

/-! ## Values -/

namespace Val

/-- More frames may be paired. -/
theorem Renamed.mono (hρ : Subrelation ρ ρ') {v w : Val} (h : v.Renamed ρ w) : v.Renamed ρ' w := by
  cases h with
  | closure h =>
    exact .closure ⟨h.id_eq, h.name_eq, h.params_eq, h.body_eq, hρ h.scope,
      h.standing.mono fun _ => hρ⟩
  | plain h => exact .plain h

/-- No frame counts for the truth of a value. -/
theorem Renamed.truthy_eq {v w : Val} (h : v.Renamed ρ w) : v.truthy = w.truthy := by
  cases h <;> rfl

/-- Nor is one printed. -/
theorem Renamed.text_eq {v w : Val} (h : v.Renamed ρ w) : v.text = w.text := by
  cases h with
  | closure h => simp only [text, Closure.text, h.name_eq]
  | plain _ => rfl

/-- Only functions remember frames. -/
theorem renamed_of_type {v : Val} (h : v.type ≠ .fn) : v.Renamed ρ v :=
  .plain fun c hc => h (by rw [hc]; rfl)

/-- A value that stands in a tree is paired with itself, if the frames of functions are. -/
theorem renamed_ofLiteral {value : Literal} (h : value.FunctionsAre ρ.Fixes) :
    (ofLiteral value).Renamed ρ (ofLiteral value) := by
  cases value with
  | function c =>
    obtain ⟨hscope, hbody⟩ := Literal.functionsAre_function.mp h
    exact .closure ⟨rfl, rfl, rfl, rfl, hscope, hbody⟩
  | _ => exact .plain (by simp [ofLiteral])

/-- The value as if its function had been declared in the root frame. No operator looks at that. -/
def uprooted : Val → Val
  | closure c => closure { c with scope := Heap.root }
  | v => v

/-- Values that differ in frames only are the same once these are forgotten. -/
theorem Renamed.uprooted_eq {v w : Val} (h : v.Renamed ρ w) : v.uprooted = w.uprooted := by
  cases h with
  | closure h => simp only [uprooted, h.id_eq, h.name_eq, h.params_eq, h.body_eq]
  | plain _ => rfl

end Val

/-- An operator does not ask a function for its frame. -/
theorem binaryValue_uprooted (pos : Position) (op : Token.Kind) (l r : Val) :
    binaryValue pos op l.uprooted r.uprooted = binaryValue pos op l r := by
  unfold binaryValue
  cases l <;> cases r <;> rfl

/-- Nor does a prefix. -/
theorem unaryValue_uprooted (pos : Position) (op : Token.Kind) (x : Val) :
    unaryValue pos op x.uprooted = unaryValue pos op x := by
  cases x with
  | closure c =>
    cases op with
    | symbol s => cases s <;> rfl
    | _ => rfl
  | _ => rfl

/-- So it has the same answer to operands that are paired. -/
theorem Val.Renamed.binaryValue_eq {l l' r r' : Val} (hl : l.Renamed ρ l') (hr : r.Renamed ρ r')
    (pos : Position) (op : Token.Kind) : binaryValue pos op l r = binaryValue pos op l' r' := by
  rw [← binaryValue_uprooted, hl.uprooted_eq, hr.uprooted_eq, binaryValue_uprooted]

/-- And so has a prefix. -/
theorem Val.Renamed.unaryValue_eq {x x' : Val} (hx : x.Renamed ρ x') (pos : Position)
    (op : Token.Kind) : unaryValue pos op x = unaryValue pos op x' := by
  rw [← unaryValue_uprooted, hx.uprooted_eq, unaryValue_uprooted]

/-! ## Bindings -/

namespace Bindings

variable {R : Val → Val → Prop}

/-- Bindings that are related by name stay so where related values are bound to a name. -/
theorem get?_insert_rel {bs bs' : Bindings}
    (h : ∀ name, Option.Rel R (bs.get? name) (bs'.get? name)) (name : String) {v w : Val}
    (hv : R v w) (other : String) :
    Option.Rel R ((bs.insert name v).get? other) ((bs'.insert name w).get? other) := by
  rw [get?_insert, get?_insert]
  split
  · exact .some hv
  · exact h other

/-- The parameters of a call stand for values that are related, if its arguments are. -/
theorem get?_ofArguments_rel (params : List String) {args args' : List Val}
    (h : List.Forall₂ R args args') (name : String) :
    Option.Rel R ((ofArguments params args).get? name) ((ofArguments params args').get? name) := by
  have hfold : ∀ {bs bs' : Bindings}, (∀ name, Option.Rel R (bs.get? name) (bs'.get? name)) →
      Option.Rel R (((params.zip args).foldl (fun bs b => bs.insert b.1 b.2) bs).get? name)
        (((params.zip args').foldl (fun bs b => bs.insert b.1 b.2) bs').get? name) := by
    induction params generalizing args args' with
    | nil => exact fun hbs => hbs name
    | cons param params ih =>
      cases h with
      | nil => exact fun hbs => hbs name
      | cons hv hrest => exact fun hbs => ih hrest (get?_insert_rel hbs param hv)
  exact hfold fun _ => .none

end Bindings

/-! ## Heaps -/

namespace Heap

variable {h h' : Heap} {f g : FrameId}

/-! ### Looking a name up -/

/-- Where parents are older, more hops than there are frames on the way up make no difference. -/
theorem Renamed.binderWithin? (hh : h.Renamed ρ h') (name : String) {hops hops' : Nat}
    (hfg : ρ f g) (hf : f < hops) (hg : g < hops') :
    Option.Rel ρ (h.binderWithin? name hops f) (h'.binderWithin? name hops' g) := by
  induction hops generalizing hops' f g with
  | zero => exact absurd hf (Nat.not_lt_zero f)
  | succ hops ih =>
    cases hops' with
    | zero => exact absurd hg (Nat.not_lt_zero g)
    | succ hops' =>
      have hbinds : h.Binds f name ↔ h'.Binds g name := by
        have hhere := hh.here hfg name
        unfold Binds
        generalize h.here? f name = v? at hhere ⊢
        generalize h'.here? g name = v?' at hhere ⊢
        cases hhere <;> simp
      rw [binderWithin?_succ, binderWithin?_succ]
      by_cases hbound : h'.Binds g name
      · rw [if_pos (hbinds.mpr hbound), if_pos hbound]
        exact .some hfg
      · rw [if_neg fun hf => hbound (hbinds.mp hf), if_neg hbound]
        have habove := hh.above hfg
        have hless := hh.older f
        have hless' := hh.older' g
        generalize h.above? f = p? at habove hless
        generalize h'.above? g = p?' at habove hless'
        cases habove with
        | none => exact .none
        | some hparents =>
          exact ih hparents (Nat.lt_of_lt_of_le (hless _ rfl) (Nat.le_of_lt_succ hf))
            (Nat.lt_of_lt_of_le (hless' _ rfl) (Nat.le_of_lt_succ hg))

/-- A name is found in frames that are paired. -/
theorem Renamed.binder? (hh : h.Renamed ρ h') (hfg : ρ f g) (name : String) :
    Option.Rel ρ (h.binder? f name) (h'.binder? g name) :=
  hh.binderWithin? name hfg (Nat.lt_succ_self f) (Nat.lt_succ_self g)

/-- **A name stands for values that are paired.** -/
theorem Renamed.get? (hh : h.Renamed ρ h') (hfg : ρ f g) (name : String) :
    Option.Rel (Val.Renamed ρ) (h.get? f name) (h'.get? g name) := by
  have hbinder := hh.binder? hfg name
  unfold Heap.get?
  generalize h.binder? f name = b? at hbinder ⊢
  generalize h'.binder? g name = b?' at hbinder ⊢
  cases hbinder with
  | none => exact .none
  | some hb => exact hh.here hb name

/-! ### Operations on heaps that are paired -/

/-- A name is bound in two frames that are paired. -/
theorem Renamed.define (hh : h.Renamed ρ h') (hfg : ρ f g) (name : String) {v w : Val}
    (hv : v.Renamed ρ w) : (h.define f name v).Renamed ρ (h'.define g name w) where
  closures_eq := hh.closures_eq
  older := hh.older.define f name v
  older' := hh.older'.define g name w
  covers k hk := hh.covers k (by rwa [size_define] at hk)
  exist hkl := by
    rw [size_define, size_define]
    exact hh.exist hkl
  unique := hh.unique
  above hkl := by
    rw [above?_define, above?_define]
    exact hh.above hkl
  here hkl other := by
    rw [here?_define h _ _ _ _ _ (hh.exist hfg).1, here?_define h' _ _ _ _ _ (hh.exist hfg).2]
    simp only [hh.unique hkl hfg]
    split
    · exact .some hv
    · exact hh.here hkl other

/-- An assignment finds two frames that are paired, or none. -/
theorem Renamed.bind (hh : h.Renamed ρ h') (hfg : ρ f g) (name : String) {v w : Val}
    (hv : v.Renamed ρ w) : (h.bind f name v).Renamed ρ (h'.bind g name w) := by
  have hbinder := hh.binder? hfg name
  rw [bind_eq, bind_eq]
  generalize h.binder? f name = b? at hbinder ⊢
  generalize h'.binder? g name = b?' at hbinder ⊢
  cases hbinder with
  | none => exact hh.define hfg name hv
  | some hb => exact hh.define hb name hv

/-- The two functions that are declared have one number, and frames that are paired. -/
theorem Renamed.declare (hh : h.Renamed ρ h') (hfg : ρ f g) (name : String)
    (params : List String) {body : List Stmt} (hbody : Stmt.AllFunctionsAre ρ.Fixes body) :
    (h.declare f name params body).Renamed ρ (h'.declare g name params body) := by
  have hcount : Heap.Renamed ρ { h with closures := h.closures + 1 }
      { h' with closures := h'.closures + 1 } :=
    ⟨congrArg (· + 1) hh.closures_eq, hh.older, hh.older', hh.covers, hh.exist, hh.unique,
      hh.above, hh.here⟩
  exact hcount.define hfg name (.closure ⟨hh.closures_eq, rfl, rfl, rfl, hfg, hbody⟩)

/-- The second heap may have one more frame, which is left out. -/
theorem Renamed.extra (hh : h.Renamed ρ h') {g : FrameId} (hg : g < h'.frames.size)
    (bs : Bindings) : h.Renamed ρ (h'.child g bs).2 where
  closures_eq := hh.closures_eq
  older := hh.older
  older' := hh.older'.child hg bs
  covers := hh.covers
  exist hkl := by
    rw [size_child]
    exact ⟨(hh.exist hkl).1, Nat.lt_succ_of_lt (hh.exist hkl).2⟩
  unique := hh.unique
  above hkl := by
    rw [above?_child, if_neg (Nat.ne_of_lt (hh.exist hkl).2)]
    exact hh.above hkl
  here hkl name := by
    rw [here?_child, if_neg (Nat.ne_of_lt (hh.exist hkl).2)]
    exact hh.here hkl name

/-- **A new frame of the first heap** is paired with one of the second that was left out so far, and
that has the same place and contents. -/
theorem Renamed.adopt (hh : h.Renamed ρ h') {f g b : FrameId} (hfg : ρ f g)
    (hb : b < h'.frames.size) (hleft : ∀ k, ¬ ρ k b) (habove : h'.above? b = some g)
    {bs : Bindings} (hbs : ∀ name, Option.Rel (Val.Renamed ρ) (bs.get? name) (h'.here? b name)) :
    (h.child f bs).2.Renamed (ρ.plus h.frames.size b) h' where
  closures_eq := hh.closures_eq
  older := hh.older.child (hh.exist hfg).1 bs
  older' := hh.older'
  covers k hk := by
    rw [size_child] at hk
    rcases Nat.lt_or_eq_of_le (Nat.le_of_lt_succ hk) with hless | hnew
    · obtain ⟨l, hkl⟩ := hh.covers k hless
      exact ⟨l, .inl hkl⟩
    · exact ⟨b, .inr ⟨hnew, rfl⟩⟩
  exist {k l} hkl := by
    rw [size_child]
    rcases hkl with hkl | ⟨hk, hl⟩
    · exact ⟨Nat.lt_succ_of_lt (hh.exist hkl).1, (hh.exist hkl).2⟩
    · rw [hk, hl]
      exact ⟨Nat.lt_succ_self _, hb⟩
  unique {k l k' l'} hkl hkl' := by
    rcases hkl with hkl | ⟨hk, hl⟩ <;> rcases hkl' with hkl' | ⟨hk', hl'⟩
    · exact hh.unique hkl hkl'
    · rw [hk', hl']
      exact iff_of_false (Nat.ne_of_lt (hh.exist hkl).1) fun hl => hleft k (hl ▸ hkl)
    · rw [hk, hl]
      exact iff_of_false (Nat.ne_of_gt (hh.exist hkl').1) fun hl => hleft k' (hl ▸ hkl')
    · rw [hk, hl, hk', hl']
      exact iff_of_true rfl rfl
  above {k l} hkl := by
    rw [above?_child]
    rcases hkl with hkl | ⟨hk, hl⟩
    · rw [if_neg (Nat.ne_of_lt (hh.exist hkl).1)]
      exact Option.Rel.mono .inl (hh.above hkl)
    · rw [if_pos hk, hl, habove]
      exact .some (.inl hfg)
  here {k l} hkl name := by
    rw [here?_child]
    rcases hkl with hkl | ⟨hk, hl⟩
    · rw [if_neg (Nat.ne_of_lt (hh.exist hkl).1)]
      exact Option.Rel.mono (.mono .inl) (hh.here hkl name)
    · rw [if_pos hk, hl]
      exact Option.Rel.mono (.mono .inl) (hbs name)

/-- New frames are paired. -/
theorem Renamed.child (hh : h.Renamed ρ h') (hfg : ρ f g) {bs bs' : Bindings}
    (hbs : ∀ name, Option.Rel (Val.Renamed ρ) (bs.get? name) (bs'.get? name)) :
    (h.child f bs).2.Renamed (ρ.plus h.frames.size h'.frames.size) (h'.child g bs').2 := by
  have hextra := hh.extra (hh.exist hfg).2 bs'
  refine hextra.adopt hfg ?_ (fun k hk => ?_) ?_ fun name => ?_
  · rw [size_child]
    exact Nat.lt_succ_self _
  · exact Nat.lt_irrefl _ (hh.exist hk).2
  · rw [above?_child, if_pos rfl]
  · rw [here?_child, if_pos rfl]
    exact hbs name

/-! ### Linked heaps -/

/-- The one frame of a new heap has no parent and binds nothing. -/
theorem linked_initial : initial.Linked where
  older := parentsOlder_initial
  captures f name v hv := by cases (here?_initial f name).symm.trans hv

/-- A linked heap is paired with itself, every frame with itself. -/
theorem Linked.renamed (hh : h.Linked) :
    h.Renamed (fun f g => f = g ∧ f < h.frames.size) h where
  closures_eq := rfl
  older := hh.older
  older' := hh.older
  covers f hf := ⟨f, rfl, hf⟩
  exist := by
    rintro f g ⟨rfl, hf⟩
    exact ⟨hf, hf⟩
  unique := by
    rintro f g f' g' ⟨rfl, -⟩ ⟨rfl, -⟩
    exact Iff.rfl
  above := by
    rintro f g ⟨rfl, hf⟩
    cases hparent : h.above? f with
    | none => exact .none
    | some parent => exact .some ⟨rfl, Nat.lt_trans (hh.older f parent hparent) hf⟩
  here := by
    rintro f g ⟨rfl, -⟩ name
    cases hv : h.here? f name with
    | none => exact .none
    | some v =>
      refine .some ?_
      cases v with
      | closure c =>
        obtain ⟨hscope, hbody⟩ := hh.captures f name _ hv
        exact .closure ⟨rfl, rfl, rfl, rfl, ⟨rfl, hscope⟩, hbody.mono fun _ hd => ⟨rfl, hd⟩⟩
      | _ => exact .plain (by simp)

/-- A heap that is paired with any is linked. -/
theorem Renamed.linked (hh : h.Renamed ρ h') : h.Linked where
  older := hh.older
  captures f name v hv := by
    have hbinds : h.Binds f name := by
      rw [Binds, hv]
      rfl
    obtain ⟨g, hfg⟩ := hh.covers f (lt_size_of_binds hbinds)
    have hhere := hh.here hfg name
    rw [hv] at hhere
    generalize h'.here? g name = v? at hhere
    cases hhere with
    | some hv =>
      cases hv with
      | closure hc =>
        exact ⟨(hh.exist hc.scope).1, hc.standing.mono fun _ hd => (hh.exist hd).1⟩
      | plain hplain => exact Val.scopedIn_of_not_closure hplain

/-- A function that is bound in the second of two paired frames is paired with one that the first
binds. -/
theorem Renamed.exists_closure (hh : h.Renamed ρ h') {f g : FrameId} (hfg : ρ f g) {name : String}
    {c' : Closure} (hc : h'.here? g name = some (.closure c')) :
    ∃ c, h.here? f name = some (.closure c) ∧ c.Renamed ρ c' := by
  have hhere := hh.here hfg name
  rw [hc] at hhere
  generalize h.here? f name = v? at hhere ⊢
  cases hhere with
  | some hv =>
    cases hv with
    | closure hclosure => exact ⟨_, rfl, hclosure⟩
    | plain hplain => exact absurd rfl (hplain c')

/-- **What can be reached** in the second heap from a frame that is paired is paired with something
that can be reached in the first. -/
theorem Renamed.exists_of_reaches (hh : h.Renamed ρ h') {s t : FrameId} (hst : ρ s t)
    (hg : h'.Reaches t g) : ∃ f, ρ f g ∧ h.Reaches s f := by
  induction hg with
  | self => exact ⟨s, hst, .self⟩
  | above _ hparent ih =>
    obtain ⟨f, hfg, hf⟩ := ih
    have habove := hh.above hfg
    rw [hparent] at habove
    generalize hfparent : h.above? f = p? at habove
    cases habove with
    | some hparents => exact ⟨_, hparents, hf.above hfparent⟩
  | @captured _ name _ _ hc ih =>
    obtain ⟨f, hfg, hf⟩ := ih
    obtain ⟨_, hfhere, hclosure⟩ := hh.exists_closure hfg hc
    exact ⟨_, hclosure.scope, hf.captured hfhere⟩
  | @standing _ name _ d _ hc hd ih =>
    obtain ⟨f, hfg, hf⟩ := ih
    obtain ⟨_, hfhere, hclosure⟩ := hh.exists_closure hfg hc
    have hstanding := (Stmt.allFunctionsAre_iff _).mp hclosure.standing
    rw [← hclosure.body_eq] at hd
    exact ⟨d.scope, hstanding d hd, hf.standing hfhere hd⟩

end Heap

end TwinScript
