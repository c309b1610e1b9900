import TwinScript.Eval.Operators
import TwinScript.Proofs.Heap
import TwinScript.Proofs.Syntax.Likeness

/-!
# Values, heaps and errors alike up to positions

Values that are no functions are alike only to themselves; functions are alike if they agree in all
but the positions in their bodies. Frames, heaps and errors are alike part by part. Every operation
on heaps takes heaps that are alike to heaps that are alike (`Heap.Like.bind`, `Heap.Like.declare`,
`Heap.Like.child`), and no operator can tell operands apart that are alike (`binaryValue_alike`,
`unaryValue_alike`).
-/

namespace TwinScript

section

variable (place : Position → Position → Prop)

/-- The functions agree in all but the positions in their bodies. -/
structure Closure.Like (c c' : Closure) : Prop where
  id_eq : c.id = c'.id
  name_eq : c.name = c'.name
  params_eq : c.params = c'.params
  scope_eq : c.scope = c'.scope
  body : Stmt.AllLike place c.body c'.body

/-- The values are the same, or functions that are alike. -/
inductive Val.Like : Val → Val → Prop
  | closure {c c' : Closure} (h : c.Like place c') : Val.Like (.closure c) (.closure c')
  | plain {v : Val} (h : ∀ c, v ≠ .closure c) : Val.Like v v

/-- The same names are bound in the same order, to values that are alike. -/
abbrev Bindings.Like : Bindings → Bindings → Prop :=
  List.Forall₂ fun b b' => b.1 = b'.1 ∧ b.2.Like place b'.2

/-- The frames have the same parent and bindings that are alike. -/
structure Frame.Like (frame frame' : Frame) : Prop where
  parent?_eq : frame.parent? = frame'.parent?
  bindings : Bindings.Like place frame.bindings frame'.bindings

/-- The heaps have the same frames, with bindings that are alike. -/
structure Heap.Like (h h' : Heap) : Prop where
  size_eq : h.frames.size = h'.frames.size
  frames : ∀ f : FrameId, Option.Rel (Frame.Like place) h.frames[f]? h'.frames[f]?
  closures_eq : h.closures = h'.closures

/-- The errors agree in all but the position that they name. -/
inductive EvalError.Like : EvalError → EvalError → Prop
  | unboundName {p q : Position} (h : place p q) (name : String) :
      EvalError.Like (.unboundName p name) (.unboundName q name)
  | notCallable {p q : Position} (h : place p q) (type : ValType) :
      EvalError.Like (.notCallable p type) (.notCallable q type)
  | divisionByZero {p q : Position} (h : place p q) :
      EvalError.Like (.divisionByZero p) (.divisionByZero q)
  | typeMismatch {p q : Position} (h : place p q) (op : Token.Kind) (operands : List ValType) :
      EvalError.Like (.typeMismatch p op operands) (.typeMismatch q op operands)
  | overflow {p q : Position} (h : place p q) : EvalError.Like (.overflow p) (.overflow q)
  | wrongArgumentCount {p q : Position} (h : place p q) (expected got : Nat) :
      EvalError.Like (.wrongArgumentCount p expected got) (.wrongArgumentCount q expected got)
  | stepLimitExceeded {p q : Position} (h : place p q) (limit : Nat) :
      EvalError.Like (.stepLimitExceeded p limit) (.stepLimitExceeded q limit)
  | callDepthExceeded {p q : Position} (h : place p q) :
      EvalError.Like (.callDepthExceeded p) (.callDepthExceeded q)
  | strayControl (k : Keyword) : EvalError.Like (.strayControl k) (.strayControl k)
  | output (cause : SinkError) : EvalError.Like (.output cause) (.output cause)

end

variable {place : Position → Position → Prop}

/-! ## Values -/

namespace Val

/-- No position counts for the truth of a value. -/
theorem Like.truthy_eq {v w : Val} (h : v.Like place w) : v.truthy = w.truthy := by
  cases h <;> rfl

/-- Nor is one printed. -/
theorem Like.text_eq {v w : Val} (h : v.Like place w) : v.text = w.text := by
  cases h with
  | closure h =>
    simp only [text, Closure.text, h.name_eq]
  | plain _ => rfl

/-- Only functions hold positions. -/
theorem like_of_type {v : Val} (h : v.type ≠ .fn) : v.Like place v :=
  .plain fun c hc => h (by rw [hc]; rfl)

/-- A literal stands for a value with the same positions. -/
theorem like_ofLiteral {value value' : Literal} (h : value.Like place value') :
    (ofLiteral value).Like place (ofLiteral value') := by
  cases h with
  | function id name params scope hbody => exact .closure ⟨rfl, rfl, rfl, rfl, hbody⟩
  | _ => exact .plain (by simp [ofLiteral])

/-- The value without the body of its function. No operator looks at that. -/
def bare : Val → Val
  | closure c => closure { c with body := [] }
  | v => v

/-- Values that differ in positions only are the same without their functions. -/
theorem Like.bare_eq {v w : Val} (h : v.Like place w) : v.bare = w.bare := by
  cases h with
  | closure h =>
    simp only [bare, h.id_eq, h.name_eq, h.params_eq, h.scope_eq]
  | plain _ => rfl

/-- The positions in the body of a function. -/
def places : Val → List Position
  | closure c => Stmt.allPlaces c.body
  | _ => []

/-- A value is like itself where its own positions are kept. -/
theorem like_self (v : Val) (h : ∀ p ∈ v.places, place p p) : v.Like place v := by
  cases v with
  | closure c => exact .closure ⟨rfl, rfl, rfl, rfl, Stmt.allLike_self c.body h⟩
  | _ => exact .plain fun c hc => by cases hc

end Val

/-! ## Operators -/

/-- An operator does not look into functions. -/
theorem binaryValue_bare (pos : Position) (op : Token.Kind) (l r : Val) :
    binaryValue pos op l.bare r.bare = binaryValue pos op l r := by
  unfold binaryValue
  cases l <;> cases r <;> rfl

/-- Nor does a prefix. -/
theorem unaryValue_bare (pos : Position) (op : Token.Kind) (x : Val) :
    unaryValue pos op x.bare = unaryValue pos op x := by
  cases x with
  | closure c =>
    cases op with
    | symbol s => cases s <;> rfl
    | _ => rfl
  | _ => rfl

/-- Operators answer alike. -/
abbrev OperatorsAlike (place : Position → Position → Prop) :
    Except EvalError Val → Except EvalError Val → Prop :=
  AnswersAlike (EvalError.Like place) (Val.Like place)

/-- An answer that is no function is like itself. -/
theorem AnswersAlike.of_type {v : Val} (h : v.type ≠ .fn) :
    OperatorsAlike place (.ok v) (.ok v) :=
  .ok (Val.like_of_type h)

section

variable {p q : Position} (hpq : place p q)
include hpq

/-- The overflow is reported at the one place or at the other. -/
theorem exactInt_alike (n : Int) : OperatorsAlike place (exactInt p n) (exactInt q n) := by
  unfold exactInt
  split
  · exact .of_type (by simp [Val.type])
  · exact .error (.overflow hpq)

/-- So are the faults of a quotient. -/
theorem divide_alike (a b : Int64) : OperatorsAlike place (divide p a b) (divide q a b) := by
  unfold divide
  split
  · exact .error (.divisionByZero hpq)
  · exact exactInt_alike hpq _

/-- And those of a remainder. -/
theorem remainder_alike (a b : Int64) :
    OperatorsAlike place (remainder p a b) (remainder q a b) := by
  have hdivide := divide_alike hpq a b
  unfold remainder
  generalize divide p a b = x at hdivide ⊢
  generalize divide q a b = y at hdivide ⊢
  cases hdivide with
  | ok _ => exact exactInt_alike hpq _
  | error h => exact .error h

/-- And operands of the wrong types. -/
theorem mismatch_alike (op : Token.Kind) (l r : Val) :
    OperatorsAlike place (mismatch p op l r) (mismatch q op l r) :=
  .error (.typeMismatch hpq op _)

/-- The place of an operator shows in its errors only. -/
theorem binaryValue_moved (op : Token.Kind) (l r : Val) :
    OperatorsAlike place (binaryValue p op l r) (binaryValue q op l r) := by
  unfold binaryValue
  split <;> (try split) <;>
    first
    | exact exactInt_alike hpq _
    | exact divide_alike hpq _ _
    | exact remainder_alike hpq _ _
    | exact mismatch_alike hpq _ _ _
    | exact .of_type (by simp [Val.type])

/-- A prefix at two places has answers that differ in these places. -/
theorem unaryValue_moved (op : Token.Kind) (x : Val) :
    OperatorsAlike place (unaryValue p op x) (unaryValue q op x) := by
  unfold unaryValue
  split
  · exact .of_type (by simp [Val.type])
  · exact exactInt_alike hpq _
  · exact .error (.typeMismatch hpq _ _)

/-- A binary operator makes the same of operands that are alike. -/
theorem binaryValue_alike (op : Token.Kind) {l l' r r' : Val} (hl : l.Like place l')
    (hr : r.Like place r') : OperatorsAlike place (binaryValue p op l r) (binaryValue q op l' r') := by
  rw [← binaryValue_bare p, ← binaryValue_bare q, hl.bare_eq, hr.bare_eq]
  exact binaryValue_moved hpq op _ _

/-- A prefix operator makes the same of operands that are alike. -/
theorem unaryValue_alike (op : Token.Kind) {x x' : Val} (hx : x.Like place x') :
    OperatorsAlike place (unaryValue p op x) (unaryValue q op x') := by
  rw [← unaryValue_bare p, ← unaryValue_bare q, hx.bare_eq]
  exact unaryValue_moved hpq op _

end

/-! ## Frames -/

/-- A name stands for values that are alike. -/
theorem Bindings.Like.get? {bs bs' : Bindings} (h : bs.Like place bs') (name : String) :
    Option.Rel (Val.Like place) (bs.get? name) (bs'.get? name) := by
  induction h with
  | nil => exact .none
  | @cons b b' rest rest' hb _ ih =>
    obtain ⟨bound, v⟩ := b
    obtain ⟨bound', v'⟩ := b'
    obtain ⟨rfl, hv⟩ := hb
    unfold Bindings.get?
    split
    · exact .some hv
    · exact ih

/-- The same name is bound to values that are alike. -/
theorem Bindings.Like.insert {bs bs' : Bindings} (h : bs.Like place bs') (name : String)
    {v v' : Val} (hv : v.Like place v') :
    Bindings.Like place (bs.insert name v) (bs'.insert name v') := by
  induction h with
  | nil => exact .cons ⟨rfl, hv⟩ .nil
  | @cons b b' rest rest' hb hrest ih =>
    obtain ⟨bound, w⟩ := b
    obtain ⟨bound', w'⟩ := b'
    obtain ⟨rfl, hw⟩ := hb
    unfold Bindings.insert
    split
    · exact .cons ⟨rfl, hv⟩ hrest
    · exact .cons ⟨rfl, hw⟩ ih

/-- The bindings of a call are alike as its arguments are. -/
theorem Bindings.like_ofArguments (params : List String) {args args' : List Val}
    (h : List.Forall₂ (Val.Like place) args args') :
    Bindings.Like place (ofArguments params args) (ofArguments params args') := by
  have hfold {args args' : List Val} (h : List.Forall₂ (Val.Like place) args args') :
      ∀ {bs bs' : Bindings}, bs.Like place bs' →
        Bindings.Like place ((params.zip args).foldl (fun bs b => bs.insert b.1 b.2) bs)
          ((params.zip args').foldl (fun bs b => bs.insert b.1 b.2) bs') := by
    induction params generalizing args args' with
    | nil => exact fun hbs => hbs
    | cons name params ih =>
      cases h with
      | nil => exact fun hbs => hbs
      | cons hv hrest => exact fun hbs => ih hrest (hbs.insert name hv)
  exact hfold h .nil

/-! ## Heaps -/

namespace Heap

/-- The position is in the body of a function that is bound in the heap. -/
def Holds (h : Heap) (p : Position) : Prop :=
  ∃ frame ∈ h.frames, ∃ b ∈ frame.bindings, p ∈ b.2.places

/-- A heap is like itself where the positions in its functions are kept. -/
theorem like_self (h : Heap) (hplace : ∀ p, h.Holds p → place p p) : h.Like place h where
  size_eq := rfl
  closures_eq := rfl
  frames f := by
    cases hf : h.frames[f]? with
    | none => exact .none
    | some frame =>
      refine .some ⟨rfl, List.forall₂_same.mpr fun b hb => ⟨rfl, b.2.like_self fun p hp => ?_⟩⟩
      exact hplace p ⟨frame, Array.mem_of_getElem? hf, b, hb, hp⟩

variable {h h' : Heap}

/-- The frames of both heaps bind the same names. -/
theorem Like.here? (hh : h.Like place h') (f : FrameId) (name : String) :
    Option.Rel (Val.Like place) (h.here? f name) (h'.here? f name) := by
  unfold Heap.here?
  have hf := hh.frames f
  generalize h.frames[f]? = frame? at hf ⊢
  generalize h'.frames[f]? = frame?' at hf ⊢
  cases hf with
  | none => exact .none
  | some hframe => exact hframe.bindings.get? name

/-- They have the same parents. -/
theorem Like.above?_eq (hh : h.Like place h') (f : FrameId) : h'.above? f = h.above? f := by
  unfold above?
  have hf := hh.frames f
  generalize h.frames[f]? = frame? at hf ⊢
  generalize h'.frames[f]? = frame?' at hf ⊢
  cases hf with
  | none => rfl
  | some hframe => exact hframe.parent?_eq.symm

/-- The same frame binds a name. -/
theorem Like.binder?_eq (hh : h.Like place h') (f : FrameId) (name : String) :
    h.binder? f name = h'.binder? f name := by
  symm
  refine @binder?_congr h h' f name (fun _ => True) (fun _ _ _ _ => trivial)
    (fun g _ => hh.above?_eq g) (fun g _ => ?_) trivial
  have hname := hh.here? g name
  unfold Binds
  generalize h.here? g name = v? at hname ⊢
  generalize h'.here? g name = v?' at hname ⊢
  cases hname <;> simp

/-- A name stands for values that are alike. -/
theorem Like.get? (hh : h.Like place h') (f : FrameId) (name : String) :
    Option.Rel (Val.Like place) (h.get? f name) (h'.get? f name) := by
  unfold Heap.get?
  rw [hh.binder?_eq]
  cases h'.binder? f name with
  | none => exact .none
  | some g => exact hh.here? g name

/-- A new frame has the same number in both heaps. -/
theorem Like.child (hh : h.Like place h') (f : FrameId) {bs bs' : Bindings}
    (hbs : bs.Like place bs') : (h.child f bs).2.Like place (h'.child f bs').2 where
  size_eq := by simp only [size_child, hh.size_eq]
  closures_eq := hh.closures_eq
  frames g := by
    simp only [Heap.child, Array.getElem?_push, hh.size_eq]
    split
    · exact .some ⟨rfl, hbs⟩
    · exact hh.frames g

/-- A name is bound in the same frame of both heaps. -/
theorem Like.define (hh : h.Like place h') (f : FrameId) (name : String) {v v' : Val}
    (hv : v.Like place v') : (h.define f name v).Like place (h'.define f name v') where
  size_eq := by simp only [size_define, hh.size_eq]
  closures_eq := hh.closures_eq
  frames g := by
    have hg := hh.frames g
    simp only [Heap.define, Array.getElem?_modify]
    split
    · generalize h.frames[g]? = frame? at hg ⊢
      generalize h'.frames[g]? = frame?' at hg ⊢
      cases hg with
      | none => exact .none
      | some hframe => exact .some ⟨hframe.parent?_eq, hframe.bindings.insert name hv⟩
    · exact hg

/-- So it is by an assignment, as the nearest frame that binds it is the same. -/
theorem Like.bind (hh : h.Like place h') (f : FrameId) (name : String) {v v' : Val}
    (hv : v.Like place v') : (h.bind f name v).Like place (h'.bind f name v') := by
  rw [bind_eq, bind_eq, hh.binder?_eq]
  exact hh.define _ name hv

/-- A declared function has the same number in both heaps. -/
theorem Like.declare (hh : h.Like place h') (f : FrameId) (name : String) (params : List String)
    {body body' : List Stmt} (hbody : Stmt.AllLike place body body') :
    (h.declare f name params body).Like place (h'.declare f name params body') := by
  have hcount : Heap.Like place { h with closures := h.closures + 1 }
      { h' with closures := h'.closures + 1 } :=
    ⟨hh.size_eq, hh.frames, by rw [hh.closures_eq]⟩
  exact hcount.define f name (.closure ⟨hh.closures_eq, rfl, rfl, rfl, hbody⟩)

end Heap

/-! ## Errors in a row -/

end TwinScript
