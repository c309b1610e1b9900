import TwinScript.Proofs.Eval.Scoping
import TwinScript.Proofs.Eval.Watched

/-!
# What holds at every moment of a run

A property of watched parts of programs may depend on what has happened so far, given by a world
that only moves on, and say of every intermediate result what it is worth in that world, and of
every frame that is used whether it is known there. `Watched.Walk` lists what such a property must
provide: sequencing keeps it, and it holds of the effects. Then it holds of everything that the
evaluator does.

Most effects leave the frames and the depth of calls alone (`Eval.Calm`), and a property treats them
alike.

* `Expr.watch_walk`, `Stmt.watch_walk`: trees have the property, if calls and loops have it.
* `watchRules_walk`, `watchProgram_walk`: so have calls, loops and programs, with any fuel.
-/

namespace TwinScript

/-! ## Calm effects -/

/-- The part of a program leaves the frames and the depth of calls alone, and ends with a result or
with an error other than that of a call which is too deep. -/
def Eval.Calm {α : Type} (m : Eval α) : Prop :=
  ∀ st, (∃ a st', m st = .done a st' ∧ st'.heap = st.heap ∧ st'.depth = st.depth) ∨
    ∃ e st', m st = .failed e st' ∧ st'.heap = st.heap ∧ st'.depth = st.depth ∧
      ∀ pos, e ≠ .callDepthExceeded pos

namespace Eval

variable {α : Type}

/-- An error that is one of programs ends a part of a program where it stands. -/
theorem Calm.fail {e : EvalError} (he : e.IsOfProgram) : (Eval.fail e : Eval α).Calm := by
  refine fun st => .inr ⟨e, st, rfl, rfl, rfl, fun pos h => ?_⟩
  rw [h] at he
  exact he

/-- An operator computes a value or fails, and touches no state. -/
theorem Calm.operator {pos : Position} {op : Token.Kind} {types : List ValType}
    {x : Except EvalError Val} (h : OperatorAnswer pos op types x) : (Eval.ofExcept x).Calm := by
  cases x with
  | ok v => exact fun st => .inl ⟨v, st, rfl, rfl, rfl⟩
  | error e =>
    refine Calm.fail ?_
    rcases h with rfl | rfl | rfl <;> trivial

/-- A step is counted outside the frames. -/
theorem Calm.step (pos : Position) : (Eval.step pos).Calm := by
  intro st
  unfold Eval.step
  cases st.limit? with
  | none => exact .inl ⟨(), _, rfl, rfl, rfl⟩
  | some limit =>
    dsimp only
    split
    · exact .inr ⟨_, _, rfl, rfl, rfl, by simp⟩
    · exact .inl ⟨(), _, rfl, rfl, rfl⟩

/-- Reading looks at the frames and leaves them alone. -/
theorem Calm.readName (f : FrameId) (pos : Position) (name : String) :
    (Eval.readName f pos name).Calm := by
  intro st
  unfold Eval.readName
  split
  · exact .inl ⟨_, st, rfl, rfl, rfl⟩
  · exact .inr ⟨_, st, rfl, rfl, rfl, by simp⟩

end Eval

/-- A builtin prints, or refuses its arguments. -/
theorem Builtin.call_calm (b : Builtin) (args : List Val) (pos : Position) :
    (b.call args pos).Calm := by
  intro st
  unfold Builtin.call
  split
  · rw [Eval.bind_apply, Eval.printLine]
    rcases st.sink.writeLine _ with ⟨_ | cause, sink⟩
    · exact .inl ⟨.nothing, _, rfl, rfl, rfl⟩
    · exact .inr ⟨_, _, rfl, rfl, rfl, by simp⟩
  · exact Eval.Calm.fail (e := .wrongArgumentCount ..) trivial st

/-- What a call makes of the way its body ended is a value or a stray signal. -/
theorem Flow.callResult_calm (flow : Flow) : flow.callResult.Calm := by
  cases flow with
  | normal => exact fun st => .inl ⟨_, st, rfl, rfl, rfl⟩
  | breaking => exact .fail trivial
  | continuing => exact .fail trivial
  | returning v => exact fun st => .inl ⟨v, st, rfl, rfl, rfl⟩

/-! ## What a property must provide -/

/-- A property `Q w m P` of a watched part of a program that begins in the world `w`, and of what is
promised of its result in the world in which it ends. Worlds are later and later; a frame that is
known to `F`, a value that is worth `V` and a function that may stand in a tree by `L` stay so. -/
structure Watched.Walk {W : Type} (Later : W → W → Prop) (F : W → FrameId → Prop)
    (L : W → Closure → Prop) (V : W → Val → Prop)
    (Q : W → {α : Type} → Watched α → (W → α → Prop) → Prop) : Prop where
  result : ∀ {w : W} {α : Type} {P : W → α → Prop} {a : α}, P w a → Q w (pure a) P
  bind : ∀ {w : W} {α β : Type} {m : Watched α} {next : α → Watched β} {P : W → α → Prop}
    {P' : W → β → Prop}, Q w m P → (∀ w' a, Later w w' → P w' a → Q w' (next a) P') →
      Q w (m >>= next) P'
  holding : ∀ {w : W} {α : Type} {m : Watched α} {P : W → α → Prop} {vs : List Val},
    (∀ v ∈ vs, V w v) → Q w m P → Q w (holding vs m) P
  /-- An effect that leaves frames and depth alone, whatever its results. -/
  calm : ∀ {w : W} {α : Type} {m : Eval α} {P : W → α → Prop}, m.Calm →
    (∀ a st st', m st = .done a st' → P w a) → Q w (act .other m) P
  readName : ∀ {w : W} {f : FrameId}, F w f → ∀ pos name,
    Q w (act .other (Eval.readName f pos name)) V
  writeName : ∀ {w : W} {f : FrameId} {v : Val}, F w f → V w v → ∀ name,
    Q w (act .other (Eval.writeName f name v)) fun _ _ => True
  declare : ∀ {w : W} {f : FrameId} {body : List Stmt}, F w f → Stmt.AllFunctionsAre (L w) body →
    ∀ name params,
      Q w (act (.declare f name params body) (Eval.declare f name params body)) fun _ _ => True
  newFrame : ∀ {w : W} {f : FrameId} {bs : Bindings}, F w f →
    (∀ name v, bs.get? name = some v → V w v) → Q w (act .other (Eval.newFrame f bs)) F
  unfinished : ∀ {w : W} {α : Type} {P : W → α → Prop}, Q w (unfinished : Watched α) P
  /-- A call of a function with as many arguments as it takes. -/
  insideCall : ∀ {w : W} {c : Closure} {args : List Val} {body : Watched Val} pos,
    V w (.closure c) → (∀ v ∈ args, V w v) → args.length = c.params.length →
    (∀ w', Later w w' → Q w' body V) → Q w (insideCall c args pos body) V
  keeps : ∀ {w w' : W} {v : Val}, Later w w' → V w v → V w' v
  keeps_frame : ∀ {w w' : W} {f : FrameId}, Later w w' → F w f → F w' f
  keeps_literal : ∀ {w w' : W} {c : Closure}, Later w w' → L w c → L w' c
  /-- The frame in which a function was declared is known where the function is. -/
  scope : ∀ {w : W} {c : Closure}, V w (.closure c) → F w c.scope
  /-- Nothing is asked of a value that is no function of a program. -/
  plain : ∀ {w : W} {v : Val}, (∀ c, v ≠ .closure c) → V w v
  /-- A function that stands in a tree is worth `V`. -/
  literal : ∀ {w : W} {c : Closure}, L w c → Stmt.AllFunctionsAre (L w) c.body → V w (.closure c)
  /-- So are the functions that stand in the body of a function. -/
  functions : ∀ {w : W} {c : Closure}, V w (.closure c) → Stmt.AllFunctionsAre (L w) c.body

section

variable {W : Type} {Later : W → W → Prop} {F : W → FrameId → Prop} {L : W → Closure → Prop}
  {V : W → Val → Prop} {Q : W → {α : Type} → Watched α → (W → α → Prop) → Prop}

/-- Calls have the property if they are made with the right number of arguments, and the function
and the arguments are worth `V`. -/
def WatchedCall.Walk (V : W → Val → Prop)
    (Q : W → {α : Type} → Watched α → (W → α → Prop) → Prop) (call : WatchedCall) : Prop :=
  ∀ w c args pos, V w (.closure c) → (∀ v ∈ args, V w v) → args.length = c.params.length →
    Q w (call c args pos) V

/-- Loops have the property in the frames that are known. -/
def WatchedLoop.Walk (F : W → FrameId → Prop) (L : W → Closure → Prop) (V : W → Val → Prop)
    (Q : W → {α : Type} → Watched α → (W → α → Prop) → Prop) (loop : WatchedLoop) : Prop :=
  ∀ w f pos condition body, (Stmt.forLoop pos condition body).FunctionsAre (L w) → F w f →
    Q w (loop f pos condition body) fun w' => Flow.Carries (V w')

variable (hQ : Watched.Walk Later F L V Q)
include hQ

namespace Watched.Walk

variable {w : W}

/-- Going on with a result that was computed from another. -/
theorem map {α β : Type} {m : Watched α} {P : W → α → Prop} {P' : W → β → Prop} (hm : Q w m P)
    {g : α → β} (hg : ∀ w' a, Later w w' → P w' a → P' w' (g a)) :
    Q w (m >>= fun a => Pure.pure (g a)) P' :=
  hQ.bind hm fun w' a hlater ha => hQ.result (hg w' a hlater ha)

/-- An error that is one of programs promises nothing of a result. -/
theorem fail {α : Type} {P : W → α → Prop} {e : EvalError} (he : e.IsOfProgram) :
    Q w (Watched.act .other (Eval.fail e : Eval α)) P :=
  hQ.calm (.fail he) fun _ _ _ h => by cases h

/-- A tree in which functions stand that may do so goes on doing well. -/
theorem keeps_expr {w' : W} (hlater : Later w w') {e : Expr} (h : e.FunctionsAre (L w)) :
    e.FunctionsAre (L w') :=
  h.mono fun _ => hQ.keeps_literal hlater

/-- So does a list of expressions. -/
theorem keeps_exprs {w' : W} (hlater : Later w w') {es : List Expr}
    (h : Expr.AllFunctionsAre (L w) es) : Expr.AllFunctionsAre (L w') es :=
  h.mono fun _ => hQ.keeps_literal hlater

/-- So does a statement. -/
theorem keeps_stmt {w' : W} (hlater : Later w w') {s : Stmt} (h : s.FunctionsAre (L w)) :
    s.FunctionsAre (L w') :=
  h.mono fun _ => hQ.keeps_literal hlater

/-- So does the body of a function. -/
theorem keeps_stmts {w' : W} (hlater : Later w w') {body : List Stmt}
    (h : Stmt.AllFunctionsAre (L w) body) : Stmt.AllFunctionsAre (L w') body :=
  h.mono fun _ => hQ.keeps_literal hlater

/-- A literal is a plain value, or a function that may stand in the tree. -/
theorem value {value : Literal} (h : value.FunctionsAre (L w)) : V w (.ofLiteral value) := by
  cases value with
  | function c =>
    obtain ⟨hc, hbody⟩ := Literal.functionsAre_function.mp h
    exact hQ.literal hc hbody
  | _ => exact hQ.plain (by simp [Val.ofLiteral])

/-- The answer of an operator is no function. -/
theorem operator {pos : Position} {op : Token.Kind} {types : List ValType}
    {x : Except EvalError Val} (h : OperatorAnswer pos op types x) :
    Q w (Watched.act .other (Eval.ofExcept x)) V := by
  refine hQ.calm (.operator h) fun a st st' hdone => hQ.plain fun c hc => ?_
  cases x with
  | ok v =>
    cases hdone
    refine h ?_
    rw [hc, Val.type]
  | error e => cases hdone

end Watched.Walk

/-! ## Expressions -/

/-- A builtin answers with the value that is nothing, and changes no frame. -/
theorem Builtin.call_walk {w : W} (b : Builtin) (args : List Val) (pos : Position) :
    Q w (Watched.act .other (b.call args pos)) V := by
  refine hQ.calm (b.call_calm args pos) fun a st st' hdone => hQ.plain fun c hc => ?_
  unfold Builtin.call at hdone
  split at hdone
  · obtain ⟨_, _, _, hresult⟩ := Eval.bind_eq_done.mp hdone
    cases hresult
    cases hc
  · cases hdone

mutual

/-- By cases on the expression: each value is held while the next part is computed, and what was
known before is still known then. -/
theorem Expr.watch_walk {call : WatchedCall} (hcall : call.Walk V Q) {f : FrameId} :
    ∀ (e : Expr) (w : W), e.FunctionsAre (L w) → F w f → Q w (e.watch call f) V
  | .literal _ value, w, h, _ => by
    rw [Expr.watch]
    exact hQ.result (hQ.value h)
  | .var pos name, w, _, hf => by
    rw [Expr.watch]
    exact hQ.readName hf pos name
  | .unary pos op operand, w, h, hf => by
    rw [Expr.watch]
    apply hQ.bind (Expr.watch_walk hcall operand w h hf)
    intro w' x _ hx
    exact hQ.holding (by simpa using hx) (hQ.operator (unaryValue_answer pos op x))
  | .binary pos op left right, w, h, hf => by
    rw [Expr.watch]
    have htruth (w : W) (b : Bool) : V w (.bool b) := hQ.plain (by simp)
    apply hQ.bind (Expr.watch_walk hcall left w h.1 hf)
    intro w' l hlater hl
    have hright : Q w' (Watched.holding [l] (right.watch call f)) V :=
      hQ.holding (by simpa using hl)
        (Expr.watch_walk hcall right w' (hQ.keeps_expr hlater h.2) (hQ.keeps_frame hlater hf))
    split
    · split
      · exact hQ.result (htruth _ _)
      · exact hQ.map hright fun _ _ _ _ => htruth _ _
    · split
      · split
        · exact hQ.map hright fun _ _ _ _ => htruth _ _
        · exact hQ.result (htruth _ _)
      · apply hQ.bind hright
        intro w'' r hlater hr
        have hl : V w'' l := hQ.keeps hlater hl
        exact hQ.holding (by simpa using ⟨hl, hr⟩) (hQ.operator (binaryValue_answer pos op l r))
  | .call pos callee args, w, h, hf => by
    rw [Expr.watch]
    apply hQ.bind (Expr.watch_walk hcall callee w h.1 hf)
    intro w' v hlater hv
    have hargs := Expr.watchAll_walk hcall args w' (hQ.keeps_exprs hlater h.2)
      (hQ.keeps_frame hlater hf)
    apply hQ.holding (by simpa using hv)
    cases v with
    | closure c =>
      dsimp only
      split
      · next hcount =>
        apply hQ.bind hargs
        rintro w'' values hlater ⟨hlength, hvalues⟩
        exact hcall w'' c values pos (hQ.keeps hlater hv) hvalues (hlength.trans hcount)
      · exact hQ.fail trivial
    | builtin b =>
      apply hQ.bind hargs
      rintro w'' values hlater ⟨-, hvalues⟩
      exact hQ.holding hvalues (Builtin.call_walk hQ b values pos)
    | _ => exact hQ.fail trivial

/-- There are as many values as expressions. -/
theorem Expr.watchAll_walk {call : WatchedCall} (hcall : call.Walk V Q) {f : FrameId} :
    ∀ (es : List Expr) (w : W), Expr.AllFunctionsAre (L w) es → F w f →
      Q w (Expr.watchAll call f es) fun w' vs => vs.length = es.length ∧ ∀ v ∈ vs, V w' v
  | [], w, _, _ => by
    rw [Expr.watchAll]
    exact hQ.result (by simp)
  | e :: rest, w, h, hf => by
    rw [Expr.watchAll]
    apply hQ.bind (Expr.watch_walk hcall e w h.1 hf)
    intro w' v hlater hv
    have hrest := Expr.watchAll_walk hcall rest w' (hQ.keeps_exprs hlater h.2)
      (hQ.keeps_frame hlater hf)
    refine hQ.map (hQ.holding (by simpa using hv) hrest) ?_
    rintro w'' vs hlater ⟨hlength, hvs⟩
    have hv : V w'' v := hQ.keeps hlater hv
    exact ⟨congrArg (· + 1) hlength, by simpa using ⟨hv, hvs⟩⟩

end

/-- A loop without a condition goes on; one with a condition evaluates it. -/
theorem watchCondition_walk {call : WatchedCall} (hcall : call.Walk V Q) {f : FrameId}
    {condition : Option Expr} {w : W} (h : ∀ e ∈ condition, e.FunctionsAre (L w)) (hf : F w f) :
    Q w (watchCondition call f condition) fun _ _ => True := by
  cases condition with
  | none => exact hQ.result trivial
  | some e => exact hQ.map (Expr.watch_walk hQ hcall e w (h e rfl) hf) fun _ _ _ _ => trivial

/-! ## Statements -/

mutual

/-- By cases on the statement; a block is executed in a new frame, which is known from then on. -/
theorem Stmt.watch_walk {call : WatchedCall} {loop : WatchedLoop} (hcall : call.Walk V Q)
    (hloop : loop.Walk F L V Q) {f : FrameId} :
    ∀ (s : Stmt) (w : W), s.FunctionsAre (L w) → F w f →
      Q w (s.watch call loop f) fun w' => Flow.Carries (V w')
  | .expr e, w, h, hf => by
    rw [Stmt.watch]
    exact hQ.map (Expr.watch_walk hQ hcall e w h hf) fun _ _ _ _ => trivial
  | .assign name value, w, h, hf => by
    rw [Stmt.watch]
    apply hQ.bind (Expr.watch_walk hQ hcall value w h hf)
    intro w' v hlater hv
    have hwrite := hQ.writeName (hQ.keeps_frame hlater hf) hv name
    exact hQ.map (hQ.holding (by simpa using hv) hwrite) fun _ _ _ _ => trivial
  | .block body, w, h, hf => by
    rw [Stmt.watch]
    have hframe : Q w (Watched.act .other (Eval.newFrame f [])) F :=
      hQ.newFrame hf (by simp [Bindings.get?])
    apply hQ.bind hframe
    exact fun w' frame hlater hframe =>
      Stmt.watchAll_walk hcall hloop body w' (hQ.keeps_stmts hlater h) hframe
  | .ifThen condition body, w, h, hf => by
    rw [Stmt.watch]
    apply hQ.bind (Expr.watch_walk hQ hcall condition w h.1 hf)
    intro w' v hlater _
    split
    · exact Stmt.watch_walk hcall hloop body w' (hQ.keeps_stmt hlater h.2)
        (hQ.keeps_frame hlater hf)
    · exact hQ.result trivial
  | .forLoop pos condition body, w, h, hf => by
    rw [Stmt.watch]
    exact hloop w f pos condition body h hf
  | .breakLoop, w, _, _ => by
    rw [Stmt.watch]
    exact hQ.result trivial
  | .continueLoop, w, _, _ => by
    rw [Stmt.watch]
    exact hQ.result trivial
  | .returnValue none, w, _, _ => by
    rw [Stmt.watch]
    exact hQ.result (hQ.plain (by simp))
  | .returnValue (some value), w, h, hf => by
    rw [Stmt.watch]
    exact hQ.map (Expr.watch_walk hQ hcall value w h hf) fun _ _ _ hv => hv
  | .function name params body, w, h, hf => by
    rw [Stmt.watch]
    exact hQ.map (hQ.declare hf h name params) fun _ _ _ _ => trivial

/-- The rest of a list is executed in the world that its first statement leaves behind. -/
theorem Stmt.watchAll_walk {call : WatchedCall} {loop : WatchedLoop} (hcall : call.Walk V Q)
    (hloop : loop.Walk F L V Q) {f : FrameId} :
    ∀ (body : List Stmt) (w : W), Stmt.AllFunctionsAre (L w) body → F w f →
      Q w (Stmt.watchAll call loop f body) fun w' => Flow.Carries (V w')
  | [], w, _, _ => by
    rw [Stmt.watchAll]
    exact hQ.result trivial
  | s :: rest, w, h, hf => by
    rw [Stmt.watchAll]
    apply hQ.bind (Stmt.watch_walk hcall hloop s w h.1 hf)
    intro w' flow hlater hflow
    cases flow with
    | normal =>
      exact Stmt.watchAll_walk hcall hloop rest w' (hQ.keeps_stmts hlater h.2)
        (hQ.keeps_frame hlater hf)
    | _ => exact hQ.result hflow

end

/-! ## Calls, loops and programs -/

/-- A function is worth what its way of ending carries. -/
theorem Flow.callResult_walk {w : W} {flow : Flow} (hflow : flow.Carries (V w)) :
    Q w (Watched.holding flow.carried (Watched.act .other flow.callResult)) V := by
  have hheld : ∀ v ∈ flow.carried, V w v := by
    cases flow with
    | returning v =>
      have hv : V w v := hflow
      simpa [Flow.carried] using hv
    | _ => simp [Flow.carried]
  refine hQ.holding hheld (hQ.calm flow.callResult_calm fun a st st' hdone => ?_)
  cases flow with
  | normal =>
    cases hdone
    exact hQ.plain (by simp)
  | returning v =>
    cases hdone
    exact hflow
  | breaking => cases hdone
  | continuing => cases hdone

/-- Calls and loops have the property, with any fuel. -/
theorem watchRules_walk (fuel : Nat) :
    (watchCall fuel).Walk V Q ∧ (watchLoop fuel).Walk F L V Q := by
  induction fuel with
  | zero =>
    constructor
    · intro w c args pos _ _ _
      rw [watchCall]
      exact hQ.unfinished
    · intro w f pos condition body _ _
      rw [watchLoop]
      exact hQ.unfinished
  | succ fuel ih =>
    obtain ⟨hcall, hloop⟩ := ih
    constructor
    · intro w c args pos hc hargs hcount
      rw [watchCall]
      refine hQ.insideCall pos hc hargs hcount fun w' hlater => ?_
      have hargs : ∀ v ∈ args, V w' v := fun v hv => hQ.keeps hlater (hargs v hv)
      have hbound : ∀ name v, (Bindings.ofArguments c.params args).get? name = some v → V w' v :=
        fun name v hv => hargs v (Bindings.get?_ofArguments_mem hv)
      have hscope : F w' c.scope := hQ.keeps_frame hlater (hQ.scope hc)
      apply hQ.bind (hQ.holding hargs (hQ.newFrame hscope hbound))
      intro w'' frame hlater' hframe
      have hbody : Stmt.AllFunctionsAre (L w'') c.body :=
        hQ.keeps_stmts hlater' (hQ.keeps_stmts hlater (hQ.functions hc))
      apply hQ.bind (Stmt.watchAll_walk hQ hcall hloop c.body w'' hbody hframe)
      intro _ flow _ hflow
      exact Flow.callResult_walk hQ hflow
    · intro w f pos condition body h hf
      rw [watchLoop]
      apply hQ.bind (watchCondition_walk hQ hcall (Stmt.functionsAre_forLoop.mp h).1 hf)
      intro w' again hlater _
      have h := hQ.keeps_stmt hlater h
      have hf : F w' f := hQ.keeps_frame hlater hf
      split
      · have hstep : Q w' (Watched.act .other (Eval.step pos)) fun _ _ => True :=
          hQ.calm (.step pos) fun _ _ _ _ => trivial
        apply hQ.bind hstep
        intro w'' _ hlater _
        have h := hQ.keeps_stmt hlater h
        have hf : F w'' f := hQ.keeps_frame hlater hf
        have hbody := (Stmt.functionsAre_forLoop.mp h).2
        apply hQ.bind (Stmt.watch_walk hQ hcall hloop body w'' hbody hf)
        intro w''' flow hlater hflow
        cases flow with
        | breaking => exact hQ.result trivial
        | returning v => exact hQ.result hflow
        | _ =>
          exact hloop w''' f pos condition body (hQ.keeps_stmt hlater h) (hQ.keeps_frame hlater hf)
      · exact hQ.result trivial

/-- Programs have the property where the root frame is known, with any fuel. -/
theorem watchProgram_walk (fuel : Nat) {program : List Stmt} {w : W}
    (h : Stmt.AllFunctionsAre (L w) program) (hroot : F w Heap.root) :
    Q w (watchProgram fuel program) fun w' v? => ∀ v, v? = some v → V w' v := by
  obtain ⟨hcall, hloop⟩ := watchRules_walk hQ fuel
  fun_induction watchProgram fuel program generalizing w with
  | case1 => exact hQ.result (by simp)
  | case2 e => exact hQ.map (Expr.watch_walk hQ hcall e w h.1 hroot) (by simp)
  | case3 s rest hlast ih =>
    apply hQ.bind (Stmt.watch_walk hQ hcall hloop s w h.1 hroot)
    intro w' flow hlater _
    cases flow with
    | normal => exact ih (hQ.keeps_stmts hlater h.2) (hQ.keeps_frame hlater hroot)
    | _ => exact hQ.fail trivial

end

end TwinScript
