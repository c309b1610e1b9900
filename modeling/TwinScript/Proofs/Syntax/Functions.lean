import TwinScript.Proofs.Syntax.Grammatical

/-!
# Functions that stand in a tree

A tree that was built by hand may hold functions as values. Such a function brings along a body and
the number of a frame that no declaration of the tree has made, so what is said of the values that a
run meets has to be asked of these functions first. `Expr.FunctionsAre P` and `Stmt.FunctionsAre P`
ask it of every function that stands in the tree, and of those in the bodies of these; all of them
are listed by `Expr.functionsIn` and `Stmt.functionsIn`.

No text writes a function as a value, so programs that were parsed are free of them, and whatever is
asked holds (`parse_functionsAre`).
-/

namespace TwinScript

mutual

/-- If the value is a function it has `P`, and so have the functions in its body. -/
def Literal.FunctionsAre (P : Closure → Prop) : Literal → Prop
  | .function ⟨id, name, params, body, scope⟩ =>
    P ⟨id, name, params, body, scope⟩ ∧ Stmt.AllFunctionsAre P body
  | _ => True

/-- The functions that stand in the expression have `P`. -/
def Expr.FunctionsAre (P : Closure → Prop) : Expr → Prop
  | .literal _ value => value.FunctionsAre P
  | .var _ _ => True
  | .unary _ _ operand => operand.FunctionsAre P
  | .binary _ _ left right => left.FunctionsAre P ∧ right.FunctionsAre P
  | .call _ callee args => callee.FunctionsAre P ∧ Expr.AllFunctionsAre P args

/-- The functions that stand in the expressions have `P`. -/
def Expr.AllFunctionsAre (P : Closure → Prop) : List Expr → Prop
  | [] => True
  | e :: rest => e.FunctionsAre P ∧ Expr.AllFunctionsAre P rest

/-- The functions that stand in the statement have `P`. -/
def Stmt.FunctionsAre (P : Closure → Prop) : Stmt → Prop
  | .expr e => e.FunctionsAre P
  | .assign _ value => value.FunctionsAre P
  | .block body => Stmt.AllFunctionsAre P body
  | .ifThen condition body => condition.FunctionsAre P ∧ body.FunctionsAre P
  | .forLoop _ none body => body.FunctionsAre P
  | .forLoop _ (some condition) body => condition.FunctionsAre P ∧ body.FunctionsAre P
  | .breakLoop => True
  | .continueLoop => True
  | .returnValue none => True
  | .returnValue (some value) => value.FunctionsAre P
  | .function _ _ body => Stmt.AllFunctionsAre P body

/-- The functions that stand in the statements have `P`. -/
def Stmt.AllFunctionsAre (P : Closure → Prop) : List Stmt → Prop
  | [] => True
  | s :: rest => s.FunctionsAre P ∧ Stmt.AllFunctionsAre P rest

end

mutual

/-- The function that the value is, if it is one, and those in its body. -/
def Literal.functionsIn : Literal → List Closure
  | .function ⟨id, name, params, body, scope⟩ =>
    ⟨id, name, params, body, scope⟩ :: Stmt.allFunctionsIn body
  | _ => []

/-- The functions that stand in the expression. -/
def Expr.functionsIn : Expr → List Closure
  | .literal _ value => value.functionsIn
  | .var _ _ => []
  | .unary _ _ operand => operand.functionsIn
  | .binary _ _ left right => left.functionsIn ++ right.functionsIn
  | .call _ callee args => callee.functionsIn ++ Expr.allFunctionsIn args

/-- The functions that stand in the expressions. -/
def Expr.allFunctionsIn : List Expr → List Closure
  | [] => []
  | e :: rest => e.functionsIn ++ Expr.allFunctionsIn rest

/-- The functions that stand in the statement. -/
def Stmt.functionsIn : Stmt → List Closure
  | .expr e => e.functionsIn
  | .assign _ value => value.functionsIn
  | .block body => Stmt.allFunctionsIn body
  | .ifThen condition body => condition.functionsIn ++ body.functionsIn
  | .forLoop _ none body => body.functionsIn
  | .forLoop _ (some condition) body => condition.functionsIn ++ body.functionsIn
  | .breakLoop => []
  | .continueLoop => []
  | .returnValue none => []
  | .returnValue (some value) => value.functionsIn
  | .function _ _ body => Stmt.allFunctionsIn body

/-- The functions that stand in the statements. -/
def Stmt.allFunctionsIn : List Stmt → List Closure
  | [] => []
  | s :: rest => s.functionsIn ++ Stmt.allFunctionsIn rest

end

variable {P : Closure → Prop}

/-- A property of the functions in a literal is one of the function that it is, and of those in the
body of that. -/
theorem Literal.functionsAre_function {c : Closure} :
    (Literal.function c).FunctionsAre P ↔ P c ∧ Stmt.AllFunctionsAre P c.body := by
  cases c
  rfl

/-- Functions stand in the condition of a loop, if it has one, and in its body. -/
theorem Stmt.functionsAre_forLoop {pos : Position} {condition : Option Expr} {body : Stmt} :
    (Stmt.forLoop pos condition body).FunctionsAre P ↔
      (∀ e ∈ condition, e.FunctionsAre P) ∧ body.FunctionsAre P := by
  cases condition <;> simp [FunctionsAre]

/-! ## The functions one by one -/

mutual

/-- The property holds of a literal if it holds of all functions in it. -/
theorem Literal.functionsAre_iff : (v : Literal) → (v.FunctionsAre P ↔ ∀ c ∈ v.functionsIn, P c)
  | .function ⟨_, _, _, body, _⟩ => by
    rw [Literal.FunctionsAre, Literal.functionsIn, List.forall_mem_cons,
      Stmt.allFunctionsAre_iff body]
  | .int _ | .str _ | .bool _ | .builtin _ | .nothing => by
    simp [Literal.FunctionsAre, Literal.functionsIn]

/-- And likewise of an expression, by induction. -/
theorem Expr.functionsAre_iff : (e : Expr) → (e.FunctionsAre P ↔ ∀ c ∈ e.functionsIn, P c)
  | .literal _ v => v.functionsAre_iff
  | .var _ _ => by simp [Expr.FunctionsAre, Expr.functionsIn]
  | .unary _ _ e => e.functionsAre_iff
  | .binary _ _ l r => by
    rw [Expr.FunctionsAre, Expr.functionsIn, List.forall_mem_append, l.functionsAre_iff,
      r.functionsAre_iff]
  | .call _ callee args => by
    rw [Expr.FunctionsAre, Expr.functionsIn, List.forall_mem_append, callee.functionsAre_iff,
      Expr.allFunctionsAre_iff args]

/-- It holds of expressions if it holds of all functions in them. -/
theorem Expr.allFunctionsAre_iff :
    (es : List Expr) → (Expr.AllFunctionsAre P es ↔ ∀ c ∈ Expr.allFunctionsIn es, P c)
  | [] => by simp [Expr.AllFunctionsAre, Expr.allFunctionsIn]
  | e :: rest => by
    rw [Expr.AllFunctionsAre, Expr.allFunctionsIn, List.forall_mem_append, e.functionsAre_iff,
      Expr.allFunctionsAre_iff rest]

/-- And of a statement, whatever is nested in it. -/
theorem Stmt.functionsAre_iff : (s : Stmt) → (s.FunctionsAre P ↔ ∀ c ∈ s.functionsIn, P c)
  | .expr e => e.functionsAre_iff
  | .assign _ e => e.functionsAre_iff
  | .block body => Stmt.allFunctionsAre_iff body
  | .ifThen e s => by
    rw [Stmt.FunctionsAre, Stmt.functionsIn, List.forall_mem_append, e.functionsAre_iff,
      s.functionsAre_iff]
  | .forLoop _ none s => s.functionsAre_iff
  | .forLoop _ (some e) s => by
    rw [Stmt.FunctionsAre, Stmt.functionsIn, List.forall_mem_append, e.functionsAre_iff,
      s.functionsAre_iff]
  | .breakLoop | .continueLoop | .returnValue none => by simp [Stmt.FunctionsAre, Stmt.functionsIn]
  | .returnValue (some e) => e.functionsAre_iff
  | .function _ _ body => Stmt.allFunctionsAre_iff body

/-- What is asked of the functions in the statements is asked of each that is listed. -/
theorem Stmt.allFunctionsAre_iff :
    (body : List Stmt) → (Stmt.AllFunctionsAre P body ↔ ∀ c ∈ Stmt.allFunctionsIn body, P c)
  | [] => by simp [Stmt.AllFunctionsAre, Stmt.allFunctionsIn]
  | s :: rest => by
    rw [Stmt.AllFunctionsAre, Stmt.allFunctionsIn, List.forall_mem_append, s.functionsAre_iff,
      Stmt.allFunctionsAre_iff rest]

end

/-- A property that follows holds of them as well. -/
theorem Expr.FunctionsAre.mono {P' : Closure → Prop} (hP : ∀ c, P c → P' c) {e : Expr}
    (h : e.FunctionsAre P) : e.FunctionsAre P' :=
  e.functionsAre_iff.mpr fun c hc => hP c (e.functionsAre_iff.mp h c hc)

/-- Also in a list of expressions. -/
theorem Expr.AllFunctionsAre.mono {P' : Closure → Prop} (hP : ∀ c, P c → P' c) {es : List Expr}
    (h : Expr.AllFunctionsAre P es) : Expr.AllFunctionsAre P' es :=
  (Expr.allFunctionsAre_iff es).mpr fun c hc => hP c ((Expr.allFunctionsAre_iff es).mp h c hc)

/-- Also in a statement. -/
theorem Stmt.FunctionsAre.mono {P' : Closure → Prop} (hP : ∀ c, P c → P' c) {s : Stmt}
    (h : s.FunctionsAre P) : s.FunctionsAre P' :=
  s.functionsAre_iff.mpr fun c hc => hP c (s.functionsAre_iff.mp h c hc)

/-- And in a list of statements. -/
theorem Stmt.AllFunctionsAre.mono {P' : Closure → Prop} (hP : ∀ c, P c → P' c) {body : List Stmt}
    (h : Stmt.AllFunctionsAre P body) : Stmt.AllFunctionsAre P' body :=
  (Stmt.allFunctionsAre_iff body).mpr fun c hc => hP c ((Stmt.allFunctionsAre_iff body).mp h c hc)

/-! ## Trees whose functions have the property -/

/-- What all functions have need not be asked of a tree. -/
theorem Expr.functionsAre_of_forall (h : ∀ c, P c) (e : Expr) : e.FunctionsAre P :=
  e.functionsAre_iff.mpr fun c _ => h c

/-- What all functions have need not be asked of a tree. -/
theorem Stmt.functionsAre_of_forall (h : ∀ c, P c) (s : Stmt) : s.FunctionsAre P :=
  s.functionsAre_iff.mpr fun c _ => h c

/-- What holds of every function holds of those in a program. -/
theorem Stmt.allFunctionsAre_of_forall (h : ∀ c, P c) (body : List Stmt) :
    Stmt.AllFunctionsAre P body :=
  (Stmt.allFunctionsAre_iff body).mpr fun c _ => h c

mutual

/-- A grammatical expression holds no functions. -/
theorem Expr.Grammatical.functionsAre : {e : Expr} → e.Grammatical → e.FunctionsAre P
  | .literal _ v, h => by
    cases v with
    | function c => cases h
    | _ => trivial
  | .var _ _, _ => trivial
  | .unary _ _ _, h => h.2.functionsAre
  | .binary _ _ _ _, h => ⟨h.2.1.functionsAre, h.2.2.functionsAre⟩
  | .call _ _ _, h => ⟨h.1.functionsAre, Expr.AllGrammatical.functionsAre h.2⟩

/-- So it is with each of the expressions of a list. -/
theorem Expr.AllGrammatical.functionsAre : {es : List Expr} → Expr.AllGrammatical es →
    Expr.AllFunctionsAre P es
  | [], _ => trivial
  | _ :: _, h => ⟨h.1.functionsAre, Expr.AllGrammatical.functionsAre h.2⟩

end

mutual

/-- A grammatical statement holds no functions. -/
theorem Stmt.Grammatical.functionsAre : {s : Stmt} → s.Grammatical → s.FunctionsAre P
  | .expr _, h => Expr.Grammatical.functionsAre h
  | .assign _ _, h => Expr.Grammatical.functionsAre h
  | .block _, h => Stmt.AllGrammatical.functionsAre h
  | .ifThen _ _, h => ⟨h.1.functionsAre, h.2.2.functionsAre⟩
  | .forLoop _ none _, h => h.2.2.functionsAre
  | .forLoop _ (some _) _, h => ⟨(h.1 _ rfl).functionsAre, h.2.2.functionsAre⟩
  | .breakLoop, _ => trivial
  | .continueLoop, _ => trivial
  | .returnValue none, _ => trivial
  | .returnValue (some _), h => (h _ rfl).functionsAre
  | .function _ _ _, h => Stmt.AllGrammatical.functionsAre h

/-- And with each of its statements. -/
theorem Stmt.AllGrammatical.functionsAre : {body : List Stmt} → Stmt.AllGrammatical body →
    Stmt.AllFunctionsAre P body
  | [], _ => trivial
  | _ :: _, h => ⟨h.1.functionsAre, Stmt.AllGrammatical.functionsAre h.2⟩

end

/-- What is parsed holds no functions. -/
theorem parse_functionsAre {tokens : List Token} {program : List Stmt}
    (h : parse tokens = .ok program) : Stmt.AllFunctionsAre P program :=
  (parse_grammatical h).functionsAre

end TwinScript
