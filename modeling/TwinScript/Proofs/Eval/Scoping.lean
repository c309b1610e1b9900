import TwinScript.Proofs.Eval.Effects
import TwinScript.Proofs.Heap
import TwinScript.Proofs.Syntax.Functions

/-!
# Runs by the frames they may touch

A property of parts of programs may speak of the frames that names are looked up from, of those that
names are bound in, and of the values that go from one part to the next. `Eval.Scoped` lists what
such a property must provide: sequencing keeps it, and it holds of every effect on the frames and
values that it allows. Unlike `Eval.Closed` it promises something of each result, which what follows
may rely on: the body of a block, say, is executed in a frame that the block has made.

* `Expr.evalWithin_scoped`: an expression binds nothing, so it may be evaluated in any frame that
  names may be looked up from.
* `Stmt.execWithin_scoped`: a statement binds names in the frame it is executed in, and not even
  there if it has a block around all that it binds (`Stmt.Encloses`).
* `rules_scoped`, `runProgram_scoped`: calls, loops and whole programs, with any fuel.
-/

namespace TwinScript

/-- All that the statement binds, it binds inside a block: it is itself a block, or a conditional or
loop around such a statement, or binds nothing at all. -/
def Stmt.Encloses : Stmt → Prop
  | .assign .. => False
  | .function .. => False
  | .ifThen _ body => body.Encloses
  | .forLoop _ _ body => body.Encloses
  | _ => True

/-- The value that is returned, if one is, has `V`. -/
def Flow.Carries (V : Val → Prop) : Flow → Prop
  | .returning v => V v
  | _ => True

/-! ## What a property must provide -/

/-- A property `Q m P` of a part of a program and of what is promised of its result. Names may be
looked up from a frame that is `seen`, and bound in one that is `own`; a function that stands in a
tree has `L`, and a value that is passed on has `V`. The property holds of the effects that a tree
has of its own as far as they keep to that, and sequencing keeps it. -/
structure Eval.Scoped (seen own : FrameId → Prop) (L : Closure → Prop) (V : Val → Prop)
    (Q : {α : Type} → Eval α → (α → Prop) → Prop) : Prop where
  result : ∀ {α : Type} {P : α → Prop} {a : α}, P a → Q (pure a) P
  fail : ∀ {α : Type} {P : α → Prop} {e : EvalError}, e.IsOfProgram → Q (Eval.fail e : Eval α) P
  bind : ∀ {α β : Type} {m : Eval α} {next : α → Eval β} {P : α → Prop} {P' : β → Prop},
    Q m P → (∀ a, P a → Q (next a) P') → Q (m >>= next) P'
  readName : ∀ {f : FrameId}, seen f → ∀ pos name, Q (Eval.readName f pos name) V
  writeName : ∀ {f : FrameId} {v : Val}, own f → V v → ∀ name,
    Q (Eval.writeName f name v) fun _ => True
  declare : ∀ {f : FrameId} {body : List Stmt}, own f → Stmt.AllFunctionsAre L body →
    ∀ name params, Q (Eval.declare f name params body) fun _ => True
  newFrame : ∀ {f : FrameId} {bs : Bindings}, seen f → (∀ name v, bs.get? name = some v → V v) →
    Q (Eval.newFrame f bs) own
  printLine : ∀ text, Q (Eval.printLine text) fun _ => True
  /-- A frame that names are bound in is one that they are looked up from. -/
  seen_of_own : ∀ {f : FrameId}, own f → seen f
  /-- Nothing is asked of a value that is no function of a program. -/
  plain : ∀ {v : Val}, (∀ c, v ≠ .closure c) → V v
  /-- A function that stands in a tree may be passed on. -/
  literal : ∀ {c : Closure}, L c → Stmt.AllFunctionsAre L c.body → V (.closure c)

/-- Calls have the property, if the function and the arguments are values that may be passed on. -/
def CallRule.Scoped (V : Val → Prop) (Q : {α : Type} → Eval α → (α → Prop) → Prop)
    (call : CallRule) : Prop :=
  ∀ c args pos, V (.closure c) → (∀ v ∈ args, V v) → Q (call c args pos) V

/-- Loops have the property in the frames in which their bodies may be executed. -/
def LoopRule.Scoped (seen own : FrameId → Prop) (L : Closure → Prop) (V : Val → Prop)
    (Q : {α : Type} → Eval α → (α → Prop) → Prop) (loop : LoopRule) : Prop :=
  ∀ f pos condition body, (Stmt.forLoop pos condition body).FunctionsAre L → seen f →
    body.Encloses ∨ own f → Q (loop f pos condition body) (Flow.Carries V)

section

variable {seen own : FrameId → Prop} {L : Closure → Prop} {V : Val → Prop}
  {Q : {α : Type} → Eval α → (α → Prop) → Prop} (hQ : Eval.Scoped seen own L V Q)
include hQ

namespace Eval.Scoped

/-- Going on with a result that was computed from another. -/
theorem map {α β : Type} {m : Eval α} {P : α → Prop} {P' : β → Prop} (hm : Q m P) {f : α → β}
    (hf : ∀ a, P a → P' (f a)) : Q (m >>= fun a => Pure.pure (f a)) P' :=
  hQ.bind hm fun a ha => hQ.result (hf a ha)

theorem value {value : Literal} (h : value.FunctionsAre L) : V (.ofLiteral value) := by
  cases value with
  | function c =>
    obtain ⟨hc, hbody⟩ := Literal.functionsAre_function.mp h
    exact hQ.literal hc hbody
  | _ => exact hQ.plain (by simp [Val.ofLiteral])

/-- The answer of an operator is no function. -/
theorem operator {pos : Position} {op : Token.Kind} {types : List ValType}
    {x : Except EvalError Val} (h : OperatorAnswer pos op types x) : Q (Eval.ofExcept x) V := by
  cases x with
  | ok v =>
    refine hQ.result (hQ.plain fun c hc => h ?_)
    rw [hc, Val.type]
  | error e =>
    refine hQ.fail ?_
    rcases h with rfl | rfl | rfl <;> trivial

end Eval.Scoped

/-! ## Expressions -/

theorem Builtin.call_scoped (b : Builtin) (args : List Val) (pos : Position) :
    Q (b.call args pos) V := by
  unfold Builtin.call
  split
  · exact hQ.map (hQ.printLine _) fun _ _ => hQ.plain (by simp)
  · exact hQ.fail trivial

mutual

/-- An expression has the property in every frame that names may be looked up from. -/
theorem Expr.eval_scoped {call : CallRule} (hcall : call.Scoped V Q) {f : FrameId} (hf : seen f) :
    ∀ e : Expr, e.FunctionsAre L → Q (e.eval call f) V
  | .literal _ value, h => by
    rw [Expr.eval]
    exact hQ.result (hQ.value h)
  | .var pos name, _ => by
    rw [Expr.eval]
    exact hQ.readName hf pos name
  | .unary pos op operand, h => by
    rw [Expr.eval]
    apply hQ.bind (Expr.eval_scoped hcall hf operand h)
    intro x _
    exact hQ.operator (unaryValue_answer pos op x)
  | .binary pos op left right, h => by
    rw [Expr.eval]
    have hright := Expr.eval_scoped hcall hf right h.2
    have htruth : ∀ b, V (.bool b) := fun b => hQ.plain (by simp)
    apply hQ.bind (Expr.eval_scoped hcall hf left h.1)
    intro l _
    split
    · split
      · exact hQ.result (htruth _)
      · exact hQ.map hright fun _ _ => htruth _
    · split
      · split
        · exact hQ.map hright fun _ _ => htruth _
        · exact hQ.result (htruth _)
      · exact hQ.bind hright fun r _ => hQ.operator (binaryValue_answer pos op l r)
  | .call pos callee args, h => by
    rw [Expr.eval]
    have hargs := Expr.evalAll_scoped hcall hf args h.2
    apply hQ.bind (Expr.eval_scoped hcall hf callee h.1)
    intro v hv
    split
    · split
      · exact hQ.bind hargs fun values hvalues => hcall _ values pos hv hvalues
      · exact hQ.fail trivial
    · exact hQ.bind hargs fun values _ => Builtin.call_scoped hQ _ values pos
    · exact hQ.fail trivial

theorem Expr.evalAll_scoped {call : CallRule} (hcall : call.Scoped V Q) {f : FrameId}
    (hf : seen f) : ∀ es : List Expr, Expr.AllFunctionsAre L es →
      Q (Expr.evalAll call f es) fun vs => ∀ v ∈ vs, V v
  | [], _ => by
    rw [Expr.evalAll]
    exact hQ.result (by simp)
  | e :: rest, h => by
    rw [Expr.evalAll]
    apply hQ.bind (Expr.eval_scoped hcall hf e h.1)
    intro v hv
    refine hQ.map (Expr.evalAll_scoped hcall hf rest h.2) fun vs hvs => ?_
    simpa using ⟨hv, hvs⟩

end

theorem loopCondition_scoped {call : CallRule} (hcall : call.Scoped V Q) {f : FrameId}
    (hf : seen f) {condition : Option Expr} (h : ∀ e ∈ condition, e.FunctionsAre L) :
    Q (loopCondition call f condition) fun _ => True := by
  unfold loopCondition
  split
  · exact hQ.result trivial
  · exact hQ.map (Expr.eval_scoped hQ hcall hf _ (h _ rfl)) fun _ _ => trivial

/-! ## Statements -/

mutual

/-- A statement has the property in every frame that names may be bound in, and if it encloses what
it binds, in every frame that they may be looked up from. -/
theorem Stmt.exec_scoped {call : CallRule} {loop : LoopRule} (hcall : call.Scoped V Q)
    (hloop : loop.Scoped seen own L V Q) {f : FrameId} (hf : seen f) :
    ∀ s : Stmt, s.FunctionsAre L → s.Encloses ∨ own f →
      Q (s.exec call loop f) (Flow.Carries V)
  | .expr e, h, _ => by
    rw [Stmt.exec]
    exact hQ.map (Expr.eval_scoped hQ hcall hf e h) fun _ _ => trivial
  | .assign name value, h, howns => by
    rw [Stmt.exec]
    have hown : own f := howns.resolve_left id
    apply hQ.bind (Expr.eval_scoped hQ hcall hf value h)
    intro v hv
    exact hQ.map (hQ.writeName hown hv name) fun _ _ => trivial
  | .block body, h, _ => by
    rw [Stmt.exec]
    have hframe : Q (Eval.newFrame f []) own := hQ.newFrame hf (by simp [Bindings.get?])
    exact hQ.bind hframe fun frame hown => Stmt.execAll_scoped hcall hloop hown body h
  | .ifThen condition body, h, howns => by
    rw [Stmt.exec]
    apply hQ.bind (Expr.eval_scoped hQ hcall hf condition h.1)
    intro v _
    split
    · exact Stmt.exec_scoped hcall hloop hf body h.2 howns
    · exact hQ.result trivial
  | .forLoop pos condition body, h, howns => by
    rw [Stmt.exec]
    exact hloop f pos condition body h hf howns
  | .breakLoop, _, _ => by
    rw [Stmt.exec]
    exact hQ.result trivial
  | .continueLoop, _, _ => by
    rw [Stmt.exec]
    exact hQ.result trivial
  | .returnValue none, _, _ => by
    rw [Stmt.exec]
    exact hQ.result (hQ.plain (by simp))
  | .returnValue (some value), h, _ => by
    rw [Stmt.exec]
    exact hQ.map (Expr.eval_scoped hQ hcall hf value h) fun _ hv => hv
  | .function name params body, h, howns => by
    rw [Stmt.exec]
    have hown : own f := howns.resolve_left id
    exact hQ.map (hQ.declare hown h name params) fun _ _ => trivial

theorem Stmt.execAll_scoped {call : CallRule} {loop : LoopRule} (hcall : call.Scoped V Q)
    (hloop : loop.Scoped seen own L V Q) {f : FrameId} (hown : own f) :
    ∀ body : List Stmt, Stmt.AllFunctionsAre L body →
      Q (Stmt.execAll call loop f body) (Flow.Carries V)
  | [], _ => by
    rw [Stmt.execAll]
    exact hQ.result trivial
  | s :: rest, h => by
    rw [Stmt.execAll]
    apply hQ.bind (Stmt.exec_scoped hcall hloop (hQ.seen_of_own hown) s h.1 (.inr hown))
    intro flow hflow
    split
    · exact Stmt.execAll_scoped hcall hloop hown rest h.2
    · exact hQ.result hflow

end

theorem Flow.callResult_scoped {flow : Flow} (h : flow.Carries V) : Q flow.callResult V := by
  cases flow with
  | normal => exact hQ.result (hQ.plain (by simp))
  | breaking => exact hQ.fail trivial
  | continuing => exact hQ.fail trivial
  | returning v => exact hQ.result h

/-! ## Programs -/

/-- A program has the property if names may be bound in the root frame, and calls and loops have
it. -/
theorem runProgram_scoped {fuel : Nat} (hroot : own Heap.root)
    (hcall : (callWithin fuel).Scoped V Q) (hloop : (loopWithin fuel).Scoped seen own L V Q)
    {program : List Stmt} (h : Stmt.AllFunctionsAre L program) :
    Q (runProgram fuel program) fun v? => ∀ v, v? = some v → V v := by
  have hseen : seen Heap.root := hQ.seen_of_own hroot
  induction program with
  | nil =>
    rw [runProgram]
    exact hQ.result (by simp)
  | cons s rest ih =>
    rcases runProgram_cons fuel s rest with ⟨e, rfl, rfl⟩ | heq
    · rw [runProgram]
      exact hQ.map (Expr.eval_scoped hQ hcall hseen e h.1) (by simp)
    · rw [heq]
      apply hQ.bind (Stmt.exec_scoped hQ hcall hloop hseen s h.1 (.inr hroot))
      intro flow _
      cases flow with
      | normal => exact ih h.2
      | breaking => exact hQ.fail trivial
      | continuing => exact hQ.fail trivial
      | returning v => exact hQ.fail trivial

end

/-! ## Calls and loops -/

/-- What a property must provide beyond that to hold of calls and loops: charging a step and being
inside a call keep it, the frame that a function was declared in is seen where the function is, and
the functions that stand in its body have `L`. -/
structure Eval.ScopedRuns (seen own : FrameId → Prop) (L : Closure → Prop) (V : Val → Prop)
    (Q : {α : Type} → Eval α → (α → Prop) → Prop) : Prop extends Eval.Scoped seen own L V Q where
  step : ∀ pos, Q (Eval.step pos) fun _ => True
  insideCall : ∀ {α : Type} {m : Eval α} {P : α → Prop}, Q m P → ∀ pos, Q (Eval.insideCall pos m) P
  unfinished : ∀ {α : Type} {P : α → Prop}, Q (fun _ => (.unfinished : Outcome α)) P
  scope_seen : ∀ {c : Closure}, V (.closure c) → seen c.scope
  functions : ∀ {c : Closure}, V (.closure c) → Stmt.AllFunctionsAre L c.body

/-- Calls and loops have the property, with any fuel. -/
theorem rules_scoped {seen own : FrameId → Prop} {L : Closure → Prop} {V : Val → Prop}
    {Q : {α : Type} → Eval α → (α → Prop) → Prop} (hQ : Eval.ScopedRuns seen own L V Q)
    (fuel : Nat) :
    (callWithin fuel).Scoped V Q ∧ (loopWithin fuel).Scoped seen own L V Q := by
  have hscoped := hQ.toScoped
  induction fuel with
  | zero =>
    constructor
    · intro c args pos _ _
      rw [callWithin]
      exact hQ.unfinished
    · intro f pos condition body _ _ _
      rw [loopWithin]
      exact hQ.unfinished
  | succ fuel ih =>
    obtain ⟨hcall, hloop⟩ := ih
    constructor
    · intro c args pos hc hargs
      have hbound : ∀ name v, (Bindings.ofArguments c.params args).get? name = some v → V v :=
        fun name v hv => hargs v (Bindings.get?_ofArguments_mem hv)
      rw [callWithin]
      refine hQ.insideCall (hQ.bind (hQ.newFrame (hQ.scope_seen hc) hbound) ?_) pos
      intro frame hown
      apply hQ.bind (Stmt.execAll_scoped hscoped hcall hloop hown c.body (hQ.functions hc))
      intro flow hflow
      exact Flow.callResult_scoped hscoped hflow
    · intro f pos condition body h hf howns
      obtain ⟨hcondition, hbody⟩ := Stmt.functionsAre_forLoop.mp h
      rw [loopWithin]
      apply hQ.bind (loopCondition_scoped hscoped hcall hf hcondition)
      intro again _
      split
      · apply hQ.bind (hQ.step pos)
        intro _ _
        apply hQ.bind (Stmt.exec_scoped hscoped hcall hloop hf body hbody howns)
        intro flow hflow
        split
        · exact hQ.result trivial
        · exact hQ.result hflow
        · exact hloop f pos condition body h hf howns
      · exact hQ.result trivial

section

variable {seen own : FrameId → Prop} {L : Closure → Prop} {V : Val → Prop}
  {Q : {α : Type} → Eval α → (α → Prop) → Prop} (hQ : Eval.ScopedRuns seen own L V Q)
  (fuel : Nat) {f : FrameId}
include hQ

/-- Expressions have the property, with any fuel for the calls in them. -/
theorem Expr.evalWithin_scoped (hf : seen f) {e : Expr} (h : e.FunctionsAre L) :
    Q (e.eval (callWithin fuel) f) V :=
  Expr.eval_scoped hQ.toScoped (rules_scoped hQ fuel).1 hf e h

/-- Statements have the property, with any fuel for the calls and loops in them. -/
theorem Stmt.execWithin_scoped (hf : seen f) {s : Stmt} (h : s.FunctionsAre L)
    (howns : s.Encloses ∨ own f) :
    Q (s.exec (callWithin fuel) (loopWithin fuel) f) (Flow.Carries V) := by
  obtain ⟨hcall, hloop⟩ := rules_scoped hQ fuel
  exact Stmt.exec_scoped hQ.toScoped hcall hloop hf s h howns

end

end TwinScript
