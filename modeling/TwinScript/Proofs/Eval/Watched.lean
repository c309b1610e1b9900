import TwinScript.Proofs.Eval.Effects

/-!
# Watched runs

The evaluator says how a run ends. What goes on while it runs is said here by watching it: a watched
part of a program does what the part does, and tells besides what it was about to do at each moment,
from which state, inside the bodies of which functions, and which intermediate results were kept for
what comes behind. Nothing else is different, so a watched run ends as the run does
(`watchProgram_shows`, and one lemma for each part of the evaluator).

* `Expr.watch`, `Stmt.watch`, `watchCall`, `watchLoop`, `watchProgram`: the evaluator, watched.
* `Interpreter.moments`: what goes on while a program is executed.
* `watchRules_show`, `watchProgram_shows`: nothing else is different.
-/

namespace TwinScript

/-! ## Moments -/

/-- What a run is about to do at a moment. Declarations of functions and their calls are told
apart. -/
inductive Deed where
  /-- Executes a declaration in the frame `f`. -/
  | declare (f : FrameId) (name : String) (params : List String) (body : List Stmt)
  /-- Starts a call of a function of the program; its arguments are evaluated. -/
  | call (c : Closure) (args : List Val) (pos : Position)
  /-- Leaves a function whose body has ended with a value. -/
  | leave
  /-- Leaves a function whose body has failed. -/
  | unwind
  /-- Has another effect, applies an operator or fails. -/
  | other

/-- A moment of a run. -/
structure Moment where
  /-- What is about to be done. -/
  deed : Deed
  /-- The functions whose bodies are being executed, the innermost first. -/
  running : List Closure
  /-- The intermediate results that are kept. -/
  held : List Val
  /-- The state in which it is done. -/
  st : State

/-- What is told of a part of a program: its moments, and how it ends. -/
abbrev Told (α : Type) := List Moment × Outcome α

/-- A part of a program that is watched: inside the bodies of some functions, while some values are
kept, it goes through moments and ends. -/
def Watched (α : Type) := List Closure → List Val → State → Told α

namespace Watched

variable {α β : Type}

/-- Ends with a result at once. -/
def result (a : α) : Watched α := fun _ _ st => ([], .done a st)

/-- Goes on with `next` if `first` ends with a result. -/
def andThen (first : Watched α) (next : α → Watched β) : Watched β := fun running held st =>
  let told := first running held st
  match told.2 with
  | .done a mid => (told.1 ++ (next a running held mid).1, (next a running held mid).2)
  | .failed e mid => (told.1, .failed e mid)
  | .unfinished => (told.1, .unfinished)
  | .crashed => (told.1, .crashed)

instance : Monad Watched where
  pure := result
  bind := andThen

/-- Does what `m` does, at one moment. -/
def act (deed : Deed) (m : Eval α) : Watched α := fun running held st =>
  ([⟨deed, running, held, st⟩], m st)

/-- Keeps `vs` meanwhile. -/
def holding (vs : List Val) (w : Watched α) : Watched α := fun running held =>
  w running (vs ++ held)

/-- Does not end, as far as the fuel lasts. -/
def unfinished : Watched α := fun _ _ _ => ([], .unfinished)

/-- Executes the body of `c` meanwhile. -/
def inBody (c : Closure) (w : Watched α) : Watched α := fun running => w (c :: running)

/-- The moment at which a function is left whose body has ended like this. -/
def leaving (running : List Closure) (held : List Val) : Outcome Val → List Moment
  | .done v st => [⟨.leave, running, v :: held, st⟩]
  | .failed _ st => [⟨.unwind, running, held, st⟩]
  | .unfinished => []
  | .crashed => []

/-- Leaves the function behind its body, whether that ends with a value or with an error. -/
def thenLeave (body : Watched Val) : Watched Val := fun running held st =>
  let told := body running held st
  (told.1 ++ leaving running held told.2, told.2.leave)

/-- Enters a call of `c` with `args` at `pos`, and leaves it behind the body. -/
def insideCall (c : Closure) (args : List Val) (pos : Position) (body : Watched Val) :
    Watched Val := do
  holding args (act (.call c args pos) (Eval.enterCall pos))
  inBody c (thenLeave body)

/-- The watched part ends as the part does. -/
def Shows (w : Watched α) (m : Eval α) : Prop :=
  ∀ running held st, (w running held st).2 = m st

end Watched

/-! ## The evaluator -/

/-- Calls a closure with arguments, at a position, and is watched. -/
abbrev WatchedCall := Closure → List Val → Position → Watched Val

/-- Runs a loop in a frame, and is watched. -/
abbrev WatchedLoop := FrameId → Position → Option Expr → Stmt → Watched Flow

open Watched

mutual

/-- Evaluates an expression, watched. Operands are kept until the operator is applied, a callee and
its first arguments while the others are evaluated. -/
def Expr.watch (call : WatchedCall) (f : FrameId) : Expr → Watched Val
  | .literal _ value => pure (Val.ofLiteral value)
  | .var pos name => act .other (Eval.readName f pos name)
  | .unary pos op operand => do
    let x ← operand.watch call f
    holding [x] (act .other (Eval.ofExcept (unaryValue pos op x)))
  | .binary pos op left right => do
    let l ← left.watch call f
    if op = .symbol .orOr then
      if l.truthy then pure (.bool true)
      else
        let r ← holding [l] (right.watch call f)
        pure (.bool r.truthy)
    else if op = .symbol .andAnd then
      if l.truthy then
        let r ← holding [l] (right.watch call f)
        pure (.bool r.truthy)
      else pure (.bool false)
    else
      let r ← holding [l] (right.watch call f)
      holding [l, r] (act .other (Eval.ofExcept (binaryValue pos op l r)))
  | .call pos callee args => do
    let v ← callee.watch call f
    holding [v] (match v with
      | .closure c =>
        if args.length = c.params.length then do
          let values ← Expr.watchAll call f args
          call c values pos
        else act .other (Eval.fail (.wrongArgumentCount pos c.params.length args.length))
      | .builtin b => do
        let values ← Expr.watchAll call f args
        holding values (act .other (b.call values pos))
      | v => act .other (Eval.fail (.notCallable pos v.type)))

/-- Evaluates expressions from left to right, watched. -/
def Expr.watchAll (call : WatchedCall) (f : FrameId) : List Expr → Watched (List Val)
  | [] => pure []
  | e :: rest => do
    let v ← e.watch call f
    let vs ← holding [v] (Expr.watchAll call f rest)
    pure (v :: vs)

end

mutual

/-- Executes a statement, watched. -/
def Stmt.watch (call : WatchedCall) (loop : WatchedLoop) (f : FrameId) : Stmt → Watched Flow
  | .expr e => do
    let _ ← e.watch call f
    pure .normal
  | .assign name value => do
    let v ← value.watch call f
    holding [v] (act .other (Eval.writeName f name v))
    pure .normal
  | .block body => do
    let frame ← act .other (Eval.newFrame f [])
    Stmt.watchAll call loop frame body
  | .ifThen condition body => do
    let v ← condition.watch call f
    if v.truthy then body.watch call loop f else pure .normal
  | .forLoop pos condition body => loop f pos condition body
  | .breakLoop => pure .breaking
  | .continueLoop => pure .continuing
  | .returnValue none => pure (.returning .nothing)
  | .returnValue (some value) => do
    let v ← value.watch call f
    pure (.returning v)
  | .function name params body => do
    act (.declare f name params body) (Eval.declare f name params body)
    pure .normal

/-- Executes statements up to the first that does not end normally, watched. -/
def Stmt.watchAll (call : WatchedCall) (loop : WatchedLoop) (f : FrameId) :
    List Stmt → Watched Flow
  | [] => pure .normal
  | s :: rest => do
    match ← s.watch call loop f with
    | .normal => Stmt.watchAll call loop f rest
    | flow => pure flow

end

/-- The value that is on its way to the end of a function. -/
def Flow.carried : Flow → List Val
  | .returning v => [v]
  | _ => []

/-- Whether a loop goes into another round, watched. -/
def watchCondition (call : WatchedCall) (f : FrameId) : Option Expr → Watched Bool
  | none => pure true
  | some condition => do
    let v ← condition.watch call f
    pure v.truthy

mutual

/-- Calls a closure, watched. -/
def watchCall : Nat → WatchedCall
  | 0, _, _, _ => unfinished
  | fuel + 1, c, args, pos => insideCall c args pos (do
    let frame ← holding args
      (act .other (Eval.newFrame c.scope (Bindings.ofArguments c.params args)))
    let flow ← Stmt.watchAll (watchCall fuel) (watchLoop fuel) frame c.body
    holding flow.carried (act .other flow.callResult))

/-- Runs a loop, watched. -/
def watchLoop : Nat → WatchedLoop
  | 0, _, _, _, _ => unfinished
  | fuel + 1, f, pos, condition, body => do
    if ← watchCondition (watchCall fuel) f condition then
      act .other (Eval.step pos)
      match ← body.watch (watchCall fuel) (watchLoop fuel) f with
      | .breaking => pure .normal
      | .returning v => pure (.returning v)
      | _ => watchLoop fuel f pos condition body
    else pure .normal

end

/-- Executes the statements of a program in the root frame, watched. -/
def watchProgram (fuel : Nat) : List Stmt → Watched (Option Val)
  | [] => pure none
  | [.expr e] => do
    let v ← e.watch (watchCall fuel) Heap.root
    pure (some v)
  | s :: rest => do
    match ← s.watch (watchCall fuel) (watchLoop fuel) Heap.root with
    | .normal => watchProgram fuel rest
    | .breaking => act .other (Eval.fail (.strayControl .breakWord))
    | .continuing => act .other (Eval.fail (.strayControl .continueWord))
    | .returning _ => act .other (Eval.fail (.strayControl .returnWord))

/-- The moments of a program that an interpreter executes, up to its end or as far as the fuel
lasts. -/
def Interpreter.moments (fuel : Nat) (it : Interpreter) (program : List Stmt) : List Moment :=
  (watchProgram fuel program [] [] it.start).1

/-! ## Watched runs end as runs do -/

namespace Watched

variable {α β : Type} {running : List Closure} {held : List Val} {st : State}

theorem bind_apply (first : Watched α) (next : α → Watched β) :
    (first >>= next) running held st =
      match (first running held st).2 with
      | .done a mid => ((first running held st).1 ++ (next a running held mid).1,
          (next a running held mid).2)
      | .failed e mid => ((first running held st).1, .failed e mid)
      | .unfinished => ((first running held st).1, .unfinished)
      | .crashed => ((first running held st).1, .crashed) := rfl

theorem Shows.pure (a : α) : (Pure.pure a : Watched α).Shows (Pure.pure a) := fun _ _ _ => rfl

theorem Shows.act (deed : Deed) (m : Eval α) : (act deed m).Shows m := fun _ _ _ => rfl

theorem Shows.holding {w : Watched α} {m : Eval α} (h : w.Shows m) (vs : List Val) :
    (holding vs w).Shows m := fun running held st => h running (vs ++ held) st

theorem Shows.bind {w : Watched α} {m : Eval α} {next : α → Watched β} {next' : α → Eval β}
    (h : w.Shows m) (hnext : ∀ a, (next a).Shows (next' a)) :
    (w >>= next).Shows (m >>= next') := by
  intro running held st
  rw [bind_apply, Eval.bind_apply, h running held st]
  cases m st with
  | done a mid => exact hnext a running held mid
  | failed _ _ | unfinished | crashed => rfl

/-- Going on with a result that was computed from another. -/
theorem Shows.map {w : Watched α} {m : Eval α} (h : w.Shows m) (g : α → β) :
    (w >>= fun a => Pure.pure (g a)).Shows (m >>= fun a => Pure.pure (g a)) :=
  h.bind fun a => .pure (g a)

theorem Shows.insideCall (c : Closure) (args : List Val) (pos : Position) {body : Watched Val}
    {m : Eval Val} (h : body.Shows m) :
    (insideCall c args pos body).Shows (Eval.insideCall pos m) := by
  refine ((Shows.act _ (Eval.enterCall pos)).holding args).bind fun _ running held st => ?_
  rw [Eval.alwaysThen_leaveCall, ← h (c :: running) held st]
  rfl

end Watched

mutual

theorem Expr.watch_shows {call : WatchedCall} {call' : CallRule}
    (hcall : ∀ c args pos, (call c args pos).Shows (call' c args pos)) (f : FrameId) :
    ∀ e : Expr, (e.watch call f).Shows (e.eval call' f)
  | .literal _ value => by
    rw [Expr.watch, Expr.eval]
    exact .pure _
  | .var pos name => by
    rw [Expr.watch, Expr.eval]
    exact .act _ _
  | .unary pos op operand => by
    rw [Expr.watch, Expr.eval]
    exact (Expr.watch_shows hcall f operand).bind fun x => (Shows.act _ _).holding _
  | .binary pos op left right => by
    rw [Expr.watch, Expr.eval]
    have hright := Expr.watch_shows hcall f right
    apply (Expr.watch_shows hcall f left).bind
    intro l
    split
    · split
      · exact .pure _
      · exact (hright.holding _).map _
    · split
      · split
        · exact (hright.holding _).map _
        · exact .pure _
      · exact (hright.holding _).bind fun r => (Shows.act _ _).holding _
  | .call pos callee args => by
    rw [Expr.watch, Expr.eval]
    have hargs := Expr.watchAll_shows hcall f args
    apply (Expr.watch_shows hcall f callee).bind
    intro v
    apply Shows.holding
    cases v with
    | closure c =>
      dsimp only
      split
      · exact hargs.bind fun values => hcall c values pos
      · exact .act _ _
    | builtin b => exact hargs.bind fun values => (Shows.act _ _).holding _
    | _ => exact .act _ _

theorem Expr.watchAll_shows {call : WatchedCall} {call' : CallRule}
    (hcall : ∀ c args pos, (call c args pos).Shows (call' c args pos)) (f : FrameId) :
    ∀ es : List Expr, (Expr.watchAll call f es).Shows (Expr.evalAll call' f es)
  | [] => by
    rw [Expr.watchAll, Expr.evalAll]
    exact .pure _
  | e :: rest => by
    rw [Expr.watchAll, Expr.evalAll]
    apply (Expr.watch_shows hcall f e).bind
    intro v
    exact ((Expr.watchAll_shows hcall f rest).holding _).map _

end

theorem watchCondition_shows {call : WatchedCall} {call' : CallRule}
    (hcall : ∀ c args pos, (call c args pos).Shows (call' c args pos)) (f : FrameId)
    (condition : Option Expr) :
    (watchCondition call f condition).Shows (loopCondition call' f condition) := by
  cases condition with
  | none => exact .pure _
  | some e => exact (e.watch_shows hcall f).map _

mutual

theorem Stmt.watch_shows {call : WatchedCall} {call' : CallRule} {loop : WatchedLoop}
    {loop' : LoopRule} (hcall : ∀ c args pos, (call c args pos).Shows (call' c args pos))
    (hloop : ∀ f pos condition body, (loop f pos condition body).Shows (loop' f pos condition body))
    (f : FrameId) : ∀ s : Stmt, (s.watch call loop f).Shows (s.exec call' loop' f)
  | .expr e => by
    rw [Stmt.watch, Stmt.exec]
    exact (e.watch_shows hcall f).map _
  | .assign name value => by
    rw [Stmt.watch, Stmt.exec]
    exact (value.watch_shows hcall f).bind fun v => ((Shows.act _ _).holding _).map _
  | .block body => by
    rw [Stmt.watch, Stmt.exec]
    exact (Shows.act _ _).bind fun frame => Stmt.watchAll_shows hcall hloop frame body
  | .ifThen condition body => by
    rw [Stmt.watch, Stmt.exec]
    apply (condition.watch_shows hcall f).bind
    intro v
    split
    · exact Stmt.watch_shows hcall hloop f body
    · exact .pure _
  | .forLoop pos condition body => by
    rw [Stmt.watch, Stmt.exec]
    exact hloop f pos condition body
  | .breakLoop => by
    rw [Stmt.watch, Stmt.exec]
    exact .pure _
  | .continueLoop => by
    rw [Stmt.watch, Stmt.exec]
    exact .pure _
  | .returnValue none => by
    rw [Stmt.watch, Stmt.exec]
    exact .pure _
  | .returnValue (some value) => by
    rw [Stmt.watch, Stmt.exec]
    exact (value.watch_shows hcall f).map _
  | .function name params body => by
    rw [Stmt.watch, Stmt.exec]
    exact (Shows.act _ _).map _

theorem Stmt.watchAll_shows {call : WatchedCall} {call' : CallRule} {loop : WatchedLoop}
    {loop' : LoopRule} (hcall : ∀ c args pos, (call c args pos).Shows (call' c args pos))
    (hloop : ∀ f pos condition body, (loop f pos condition body).Shows (loop' f pos condition body))
    (f : FrameId) : ∀ body : List Stmt,
      (Stmt.watchAll call loop f body).Shows (Stmt.execAll call' loop' f body)
  | [] => by
    rw [Stmt.watchAll, Stmt.execAll]
    exact .pure _
  | s :: rest => by
    rw [Stmt.watchAll, Stmt.execAll]
    apply (Stmt.watch_shows hcall hloop f s).bind
    intro flow
    cases flow with
    | normal => exact Stmt.watchAll_shows hcall hloop f rest
    | _ => exact .pure _

end

/-- Calls and loops that are watched end as calls and loops do, whatever the fuel. -/
theorem watchRules_show (fuel : Nat) :
    (∀ c args pos, (watchCall fuel c args pos).Shows (callWithin fuel c args pos)) ∧
      ∀ f pos condition body,
        (watchLoop fuel f pos condition body).Shows (loopWithin fuel f pos condition body) := by
  induction fuel with
  | zero =>
    constructor
    · intro c args pos
      rw [watchCall, callWithin]
      exact fun _ _ _ => rfl
    · intro f pos condition body
      rw [watchLoop, loopWithin]
      exact fun _ _ _ => rfl
  | succ fuel ih =>
    obtain ⟨hcall, hloop⟩ := ih
    constructor
    · intro c args pos
      rw [watchCall, callWithin]
      apply Shows.insideCall
      apply ((Shows.act _ _).holding args).bind
      intro frame
      apply (Stmt.watchAll_shows hcall hloop frame c.body).bind
      exact fun flow => (Shows.act _ _).holding _
    · intro f pos condition body
      rw [watchLoop, loopWithin]
      apply (watchCondition_shows hcall f condition).bind
      intro again
      split
      · apply (Shows.act _ _).bind
        intro _
        apply (Stmt.watch_shows hcall hloop f body).bind
        intro flow
        cases flow with
        | breaking => exact .pure _
        | returning v => exact .pure _
        | _ => exact hloop f pos condition body
      · exact .pure _

/-- **A watched program ends as the program does.** -/
theorem watchProgram_shows (fuel : Nat) (program : List Stmt) :
    (watchProgram fuel program).Shows (runProgram fuel program) := by
  obtain ⟨hcall, hloop⟩ := watchRules_show fuel
  fun_induction watchProgram fuel program with
  | case1 => exact .pure _
  | case2 e =>
    rw [runProgram]
    exact (e.watch_shows hcall Heap.root).map _
  | case3 s rest hlast ih =>
    rw [runProgram]
    · apply (s.watch_shows hcall hloop Heap.root).bind
      intro flow
      cases flow with
      | normal => exact ih
      | _ => exact .act _ _
    · exact hlast

end TwinScript
