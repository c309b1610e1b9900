import TwinScript.Syntax.Basic
import Mathlib.Data.List.Forall2

/-!
# Trees alike up to positions

Two trees are alike if they differ in nothing but positions, and corresponding positions are related
by a given relation `place`. What the relation is depends on where the trees come from: it may relate
the positions of one line, or a position to the same one further down.

* `Expr.eq_of_like`, `Stmt.eq_of_like`: trees that are alike at the same positions are the same.
* `Expr.like_of_common`, `Stmt.like_of_common`: trees that are alike to a third are alike.
* `Expr.like_self`, `Stmt.like_self`: a tree is alike to itself if `place` relates each of its own
  positions (`Expr.places`, `Stmt.places`) to itself.
-/

/-- Options related by one relation are related by another after they are mapped. -/
theorem Option.Rel.map {α β γ δ : Type} {R : α → β → Prop} {S : γ → δ → Prop} {f : α → γ}
    {g : β → δ} {a : Option α} {b : Option β} (h : Option.Rel R a b)
    (hfg : ∀ a b, R a b → S (f a) (g b)) : Option.Rel S (a.map f) (b.map g) := by
  cases h with
  | none => exact .none
  | some h => exact .some (hfg _ _ h)

namespace TwinScript

/-- On the same line. -/
def Position.SameLine (p q : Position) : Prop := p.line = q.line

/-- The answers are results related by `R`, or errors related by `E`. -/
inductive AnswersAlike {ε ε' α β : Type} (E : ε → ε' → Prop) (R : α → β → Prop) :
    Except ε α → Except ε' β → Prop
  | ok {a : α} {b : β} (h : R a b) : AnswersAlike E R (.ok a) (.ok b)
  | error {e : ε} {e' : ε'} (h : E e e') : AnswersAlike E R (.error e) (.error e')

section

variable {ε ε' φ φ' α β : Type} {E : ε → ε' → Prop} {F : φ → φ' → Prop} {R : α → β → Prop}

theorem AnswersAlike.mono {E' : ε → ε' → Prop} {R' : α → β → Prop} {x : Except ε α}
    {y : Except ε' β} (h : AnswersAlike E R x y) (hE : ∀ e e', E e e' → E' e e')
    (hR : ∀ a b, R a b → R' a b) : AnswersAlike E' R' x y := by
  cases h with
  | ok h => exact .ok (hR _ _ h)
  | error h => exact .error (hE _ _ h)

theorem AnswersAlike.mapError {x : Except ε α} {y : Except ε' β} (h : AnswersAlike E R x y)
    {f : ε → φ} {f' : ε' → φ'} (hf : ∀ e e', E e e' → F (f e) (f' e')) :
    AnswersAlike F R (x.mapError f) (y.mapError f') := by
  cases h with
  | ok h => exact .ok h
  | error h => exact .error (hf _ _ h)

end

section

variable (place : Position → Position → Prop)

mutual

/-- The values differ in positions only, and these are related by `place`. Only functions have any,
in their bodies. -/
inductive Literal.Like : Literal → Literal → Prop
  | int (n : Int64) : Literal.Like (.int n) (.int n)
  | str (s : String) : Literal.Like (.str s) (.str s)
  | bool (b : Bool) : Literal.Like (.bool b) (.bool b)
  | function (id : Nat) (name : String) (params : List String) {body body' : List Stmt}
      (scope : FrameId) (h : List.Forall₂ Stmt.Like body body') :
      Literal.Like (.function ⟨id, name, params, body, scope⟩)
        (.function ⟨id, name, params, body', scope⟩)
  | builtin (b : Builtin) : Literal.Like (.builtin b) (.builtin b)
  | nothing : Literal.Like .nothing .nothing

/-- The expressions differ in positions only, and these are related by `place`. -/
inductive Expr.Like : Expr → Expr → Prop
  | literal {p q : Position} {v v' : Literal} (h : place p q) (value : Literal.Like v v') :
      Expr.Like (.literal p v) (.literal q v')
  | var {p q : Position} (h : place p q) (name : String) : Expr.Like (.var p name) (.var q name)
  | unary {p q : Position} {e e' : Expr} (h : place p q) (op : Token.Kind)
      (operand : Expr.Like e e') : Expr.Like (.unary p op e) (.unary q op e')
  | binary {p q : Position} {l l' r r' : Expr} (h : place p q) (op : Token.Kind)
      (left : Expr.Like l l') (right : Expr.Like r r') :
      Expr.Like (.binary p op l r) (.binary q op l' r')
  | call {p q : Position} {c c' : Expr} {args args' : List Expr} (h : place p q)
      (callee : Expr.Like c c') (all : List.Forall₂ Expr.Like args args') :
      Expr.Like (.call p c args) (.call q c' args')

/-- The statements differ in positions only, and these are related by `place`. -/
inductive Stmt.Like : Stmt → Stmt → Prop
  | expr {e e' : Expr} (h : Expr.Like e e') : Stmt.Like (.expr e) (.expr e')
  | assign (name : String) {e e' : Expr} (h : Expr.Like e e') :
      Stmt.Like (.assign name e) (.assign name e')
  | block {body body' : List Stmt} (h : List.Forall₂ Stmt.Like body body') :
      Stmt.Like (.block body) (.block body')
  | ifThen {e e' : Expr} {s s' : Stmt} (condition : Expr.Like e e') (body : Stmt.Like s s') :
      Stmt.Like (.ifThen e s) (.ifThen e' s')
  | forLoop {p q : Position} {e e' : Option Expr} {s s' : Stmt} (h : place p q)
      (condition : Option.Rel Expr.Like e e') (body : Stmt.Like s s') :
      Stmt.Like (.forLoop p e s) (.forLoop q e' s')
  | breakLoop : Stmt.Like .breakLoop .breakLoop
  | continueLoop : Stmt.Like .continueLoop .continueLoop
  | returnValue {e e' : Option Expr} (h : Option.Rel Expr.Like e e') :
      Stmt.Like (.returnValue e) (.returnValue e')
  | function (name : String) (params : List String) {body body' : List Stmt}
      (h : List.Forall₂ Stmt.Like body body') :
      Stmt.Like (.function name params body) (.function name params body')

end

/-- Statements one after the other, each alike to its counterpart. -/
abbrev Stmt.AllLike : List Stmt → List Stmt → Prop :=
  List.Forall₂ (Stmt.Like place)

end

variable {place : Position → Position → Prop}

/-- Expressions that are alike stand at related positions. -/
theorem Expr.Like.pos {e e' : Expr} (h : e.Like place e') : place e.pos e'.pos := by
  cases h <;> assumption

/-! ## Alike at the same positions -/

mutual

/-- Values that are alike at the same positions are the same. -/
theorem Literal.eq_of_like : (v : Literal) → {v' : Literal} → v.Like Eq v' → v = v'
  | .int _, _, .int _ => rfl
  | .str _, _, .str _ => rfl
  | .bool _, _, .bool _ => rfl
  | .function ⟨_, _, _, body, _⟩, _, .function _ _ _ _ h => by rw [Stmt.allEq_of_like body h]
  | .builtin _, _, .builtin _ => rfl
  | .nothing, _, .nothing => rfl

/-- Expressions that are alike at the same positions are the same. -/
theorem Expr.eq_of_like : (e : Expr) → {e' : Expr} → e.Like Eq e' → e = e'
  | .literal _ v, _, .literal rfl h => by rw [v.eq_of_like h]
  | .var _ _, _, .var rfl _ => rfl
  | .unary _ _ e, _, .unary rfl _ h => by rw [e.eq_of_like h]
  | .binary _ _ l r, _, .binary rfl _ hl hr => by rw [l.eq_of_like hl, r.eq_of_like hr]
  | .call _ c args, _, .call rfl hc hargs => by rw [c.eq_of_like hc, Expr.allEq_of_like args hargs]

theorem Expr.allEq_of_like : (es : List Expr) → {es' : List Expr} →
    List.Forall₂ (Expr.Like Eq) es es' → es = es'
  | [], _, .nil => rfl
  | e :: es, _, .cons h hs => by rw [e.eq_of_like h, Expr.allEq_of_like es hs]

/-- Statements that are alike at the same positions are the same. -/
theorem Stmt.eq_of_like : (s : Stmt) → {s' : Stmt} → s.Like Eq s' → s = s'
  | .expr e, _, .expr h => by rw [e.eq_of_like h]
  | .assign _ e, _, .assign _ h => by rw [e.eq_of_like h]
  | .block body, _, .block h => by rw [Stmt.allEq_of_like body h]
  | .ifThen e s, _, .ifThen he hs => by rw [e.eq_of_like he, s.eq_of_like hs]
  | .forLoop _ none s, _, .forLoop rfl .none hs => by rw [s.eq_of_like hs]
  | .forLoop _ (some e) s, _, .forLoop rfl (.some he) hs => by
    rw [e.eq_of_like he, s.eq_of_like hs]
  | .breakLoop, _, .breakLoop => rfl
  | .continueLoop, _, .continueLoop => rfl
  | .returnValue none, _, .returnValue .none => rfl
  | .returnValue (some e), _, .returnValue (.some h) => by rw [e.eq_of_like h]
  | .function _ _ body, _, .function _ _ h => by rw [Stmt.allEq_of_like body h]

theorem Stmt.allEq_of_like : (body : List Stmt) → {body' : List Stmt} →
    Stmt.AllLike Eq body body' → body = body'
  | [], _, .nil => rfl
  | s :: rest, _, .cons h hs => by rw [s.eq_of_like h, Stmt.allEq_of_like rest hs]

end

/-! ## Alike to the same tree -/

section

variable (place) in
/-- Two positions are related by `place` if the one is related to a third, and the other as well. -/
def PlacesMeet (place₁ place₂ : Position → Position → Prop) : Prop :=
  ∀ p q r, place₁ p r → place₂ q r → place p q

variable {place₁ place₂ : Position → Position → Prop}

mutual

/-- Values that are alike to a third are alike. -/
theorem Literal.like_of_common (h : PlacesMeet place place₁ place₂) : (v : Literal) →
    {v' third : Literal} → v.Like place₁ third → v'.Like place₂ third → v.Like place v'
  | .int _, _, _, .int n, .int _ => .int n
  | .str _, _, _, .str s, .str _ => .str s
  | .bool _, _, _, .bool b, .bool _ => .bool b
  | .function ⟨_, _, _, body, _⟩, _, _, .function id name params scope hbody,
    .function _ _ _ _ hbody' =>
    .function id name params scope (Stmt.allLike_of_common h body hbody hbody')
  | .builtin _, _, _, .builtin b, .builtin _ => .builtin b
  | .nothing, _, _, .nothing, .nothing => .nothing

/-- Expressions that are alike to a third are alike. -/
theorem Expr.like_of_common (h : PlacesMeet place place₁ place₂) : (e : Expr) →
    {e' third : Expr} → e.Like place₁ third → e'.Like place₂ third → e.Like place e'
  | .literal _ v, _, _, .literal hp hv, .literal hq hv' =>
    .literal (h _ _ _ hp hq) (v.like_of_common h hv hv')
  | .var _ _, _, _, .var hp name, .var hq _ => .var (h _ _ _ hp hq) name
  | .unary _ _ e, _, _, .unary hp op he, .unary hq _ he' =>
    .unary (h _ _ _ hp hq) op (e.like_of_common h he he')
  | .binary _ _ l r, _, _, .binary hp op hl hr, .binary hq _ hl' hr' =>
    .binary (h _ _ _ hp hq) op (l.like_of_common h hl hl') (r.like_of_common h hr hr')
  | .call _ c args, _, _, .call hp hc hargs, .call hq hc' hargs' =>
    .call (h _ _ _ hp hq) (c.like_of_common h hc hc') (Expr.allLike_of_common h args hargs hargs')

theorem Expr.allLike_of_common (h : PlacesMeet place place₁ place₂) : (es : List Expr) →
    {es' third : List Expr} → List.Forall₂ (Expr.Like place₁) es third →
    List.Forall₂ (Expr.Like place₂) es' third → List.Forall₂ (Expr.Like place) es es'
  | [], _, _, .nil, .nil => .nil
  | e :: es, _, _, .cons he hes, .cons he' hes' =>
    .cons (e.like_of_common h he he') (Expr.allLike_of_common h es hes hes')

/-- Statements that are alike to a third are alike. -/
theorem Stmt.like_of_common (h : PlacesMeet place place₁ place₂) : (s : Stmt) →
    {s' third : Stmt} → s.Like place₁ third → s'.Like place₂ third → s.Like place s'
  | .expr e, _, _, .expr he, .expr he' => .expr (e.like_of_common h he he')
  | .assign _ e, _, _, .assign name he, .assign _ he' => .assign name (e.like_of_common h he he')
  | .block body, _, _, .block hbody, .block hbody' =>
    .block (Stmt.allLike_of_common h body hbody hbody')
  | .ifThen e s, _, _, .ifThen he hs, .ifThen he' hs' =>
    .ifThen (e.like_of_common h he he') (s.like_of_common h hs hs')
  | .forLoop _ none s, _, _, .forLoop hp .none hs, .forLoop hq .none hs' =>
    .forLoop (h _ _ _ hp hq) .none (s.like_of_common h hs hs')
  | .forLoop _ (some e) s, _, _, .forLoop hp (.some he) hs, .forLoop hq (.some he') hs' =>
    .forLoop (h _ _ _ hp hq) (.some (e.like_of_common h he he')) (s.like_of_common h hs hs')
  | .breakLoop, _, _, .breakLoop, .breakLoop => .breakLoop
  | .continueLoop, _, _, .continueLoop, .continueLoop => .continueLoop
  | .returnValue none, _, _, .returnValue .none, .returnValue .none => .returnValue .none
  | .returnValue (some e), _, _, .returnValue (.some he), .returnValue (.some he') =>
    .returnValue (.some (e.like_of_common h he he'))
  | .function _ _ body, _, _, .function name params hbody, .function _ _ hbody' =>
    .function name params (Stmt.allLike_of_common h body hbody hbody')

theorem Stmt.allLike_of_common (h : PlacesMeet place place₁ place₂) : (body : List Stmt) →
    {body' third : List Stmt} → Stmt.AllLike place₁ body third →
    Stmt.AllLike place₂ body' third → Stmt.AllLike place body body'
  | [], _, _, .nil, .nil => .nil
  | s :: rest, _, _, .cons hs hrest, .cons hs' hrest' =>
    .cons (s.like_of_common h hs hs') (Stmt.allLike_of_common h rest hrest hrest')

end

end

/-! ## Alike to itself -/

mutual

/-- The positions in a value. -/
def Literal.places : Literal → List Position
  | .function ⟨_, _, _, body, _⟩ => Stmt.allPlaces body
  | _ => []

/-- The positions in an expression. -/
def Expr.places : Expr → List Position
  | .literal p v => p :: v.places
  | .var p _ => [p]
  | .unary p _ e => p :: e.places
  | .binary p _ l r => p :: (l.places ++ r.places)
  | .call p c args => p :: (c.places ++ Expr.allPlaces args)

/-- The positions in expressions. -/
def Expr.allPlaces : List Expr → List Position
  | [] => []
  | e :: rest => e.places ++ Expr.allPlaces rest

/-- The positions in a statement. -/
def Stmt.places : Stmt → List Position
  | .expr e => e.places
  | .assign _ e => e.places
  | .block body => Stmt.allPlaces body
  | .ifThen e s => e.places ++ s.places
  | .forLoop p none s => p :: s.places
  | .forLoop p (some e) s => p :: (e.places ++ s.places)
  | .breakLoop => []
  | .continueLoop => []
  | .returnValue none => []
  | .returnValue (some e) => e.places
  | .function _ _ body => Stmt.allPlaces body

/-- The positions in statements. -/
def Stmt.allPlaces : List Stmt → List Position
  | [] => []
  | s :: rest => s.places ++ Stmt.allPlaces rest

end

mutual

theorem Literal.like_self : (v : Literal) → (∀ p ∈ v.places, place p p) → v.Like place v
  | .int n, _ => .int n
  | .str s, _ => .str s
  | .bool b, _ => .bool b
  | .function ⟨id, name, params, body, scope⟩, h =>
    .function id name params scope (Stmt.allLike_self body h)
  | .builtin b, _ => .builtin b
  | .nothing, _ => .nothing

theorem Expr.like_self : (e : Expr) → (∀ p ∈ e.places, place p p) → e.Like place e
  | .literal p v, h => by
    simp only [Expr.places, List.forall_mem_cons] at h
    exact .literal h.1 (v.like_self h.2)
  | .var p name, h => .var (h p List.mem_cons_self) name
  | .unary p op e, h => by
    simp only [Expr.places, List.forall_mem_cons] at h
    exact .unary h.1 op (e.like_self h.2)
  | .binary p op l r, h => by
    simp only [Expr.places, List.forall_mem_cons, List.forall_mem_append] at h
    exact .binary h.1 op (l.like_self h.2.1) (r.like_self h.2.2)
  | .call p c args, h => by
    simp only [Expr.places, List.forall_mem_cons, List.forall_mem_append] at h
    exact .call h.1 (c.like_self h.2.1) (Expr.allLike_self args h.2.2)

theorem Expr.allLike_self : (es : List Expr) → (∀ p ∈ Expr.allPlaces es, place p p) →
    List.Forall₂ (Expr.Like place) es es
  | [], _ => .nil
  | e :: es, h => by
    simp only [Expr.allPlaces, List.forall_mem_append] at h
    exact .cons (e.like_self h.1) (Expr.allLike_self es h.2)

theorem Stmt.like_self : (s : Stmt) → (∀ p ∈ s.places, place p p) → s.Like place s
  | .expr e, h => .expr (e.like_self h)
  | .assign name e, h => .assign name (e.like_self h)
  | .block body, h => .block (Stmt.allLike_self body h)
  | .ifThen e s, h => by
    simp only [Stmt.places, List.forall_mem_append] at h
    exact .ifThen (e.like_self h.1) (s.like_self h.2)
  | .forLoop p none s, h => by
    simp only [Stmt.places, List.forall_mem_cons] at h
    exact .forLoop h.1 .none (s.like_self h.2)
  | .forLoop p (some e) s, h => by
    simp only [Stmt.places, List.forall_mem_cons, List.forall_mem_append] at h
    exact .forLoop h.1 (.some (e.like_self h.2.1)) (s.like_self h.2.2)
  | .breakLoop, _ => .breakLoop
  | .continueLoop, _ => .continueLoop
  | .returnValue none, _ => .returnValue .none
  | .returnValue (some e), h => .returnValue (.some (e.like_self h))
  | .function name params body, h => .function name params (Stmt.allLike_self body h)

theorem Stmt.allLike_self : (body : List Stmt) → (∀ p ∈ Stmt.allPlaces body, place p p) →
    Stmt.AllLike place body body
  | [], _ => .nil
  | s :: rest, h => by
    simp only [Stmt.allPlaces, List.forall_mem_append] at h
    exact .cons (s.like_self h.1) (Stmt.allLike_self rest h.2)

end

/-! ## Other relations of positions -/

theorem Stmt.AllLike.mono {place place' : Position → Position → Prop}
    (hplace : ∀ p q, place p q → place' p q) {program program' : List Stmt}
    (h : Stmt.AllLike place program program') : Stmt.AllLike place' program program' := by
  have hself : Stmt.AllLike Eq program' program' := Stmt.allLike_self program' fun _ _ => rfl
  refine Stmt.allLike_of_common (fun p q r hp hq => ?_) program h hself
  exact hplace p q (hq ▸ hp)

end TwinScript
