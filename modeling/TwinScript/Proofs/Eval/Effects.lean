import TwinScript.Proofs.Eval.Operators
import TwinScript.Proofs.Interpreter

/-!
# Runs are built from effects

Whatever a program does to the state, it does through a handful of effects: it charges a step,
reads or writes a name, declares a function, makes a frame, prints a line, or does something inside
a call, which it enters before and leaves behind. `Eval.Built` says that a part of a program is put
together from these by sequencing, and all of the evaluator is (`rules_built`, `runProgram_built`).
That follows from a walk over trees that works for any property which sequencing keeps
(`Eval.Closed`, `Expr.eval_closed`, `Stmt.exec_closed`).

So a property of parts of programs that sequencing keeps holds of all runs once it holds of the
effects, by one induction on `Built` and without another look at the evaluator. The first is that
calls are left as often as they are entered (`Eval.Built.depth_eq`), so that no function is left
which was not entered, behind an error either (`Eval.Built.ne_crashed`).
-/

namespace TwinScript

/-- The errors that a program makes itself; all others are reported by an effect. -/
def EvalError.IsOfProgram : EvalError → Prop
  | .notCallable .. => True
  | .divisionByZero .. => True
  | .typeMismatch .. => True
  | .overflow .. => True
  | .wrongArgumentCount .. => True
  | .strayControl .. => True
  | _ => False

/-- The state behind an outcome, if it has ended. -/
def Outcome.state? {α : Type} : Outcome α → Option State
  | .done _ st => some st
  | .failed _ st => some st
  | .unfinished => none
  | .crashed => none

/-- A part of a program that is put together from effects by sequencing. -/
inductive Eval.Built : {α : Type} → Eval α → Prop where
  | result {α : Type} (a : α) : Built (pure a)
  | fail {α : Type} {e : EvalError} (h : e.IsOfProgram) : Built (Eval.fail e : Eval α)
  | unfinished {α : Type} : Built (fun _ => (.unfinished : Outcome α))
  | bind {α β : Type} {m : Eval α} {next : α → Eval β} (hm : Built m)
      (hnext : ∀ a, Built (next a)) : Built (m >>= next)
  | step (pos : Position) : Built (Eval.step pos)
  | insideCall {α : Type} {m : Eval α} (hm : Built m) (pos : Position) :
      Built (Eval.insideCall pos m)
  | readName (f : FrameId) (pos : Position) (name : String) : Built (Eval.readName f pos name)
  | writeName (f : FrameId) (name : String) (v : Val) : Built (Eval.writeName f name v)
  | declare (f : FrameId) (name : String) (params : List String) (body : List Stmt) :
      Built (Eval.declare f name params body)
  | newFrame (f : FrameId) (bindings : Bindings) : Built (Eval.newFrame f bindings)
  | printLine (text : String) : Built (Eval.printLine text)

/-! ## What sequencing keeps -/

/-- The property holds of the effects that a tree has of its own, and sequencing keeps it. It then
holds of all trees, if it holds of calls and loops. -/
structure Eval.Closed (Q : {α : Type} → Eval α → Prop) : Prop where
  result : ∀ {α : Type} (a : α), Q (pure a)
  fail : ∀ {α : Type} {e : EvalError}, e.IsOfProgram → Q (Eval.fail e : Eval α)
  bind : ∀ {α β : Type} {m : Eval α} {next : α → Eval β}, Q m → (∀ a, Q (next a)) → Q (m >>= next)
  readName : ∀ f pos name, Q (Eval.readName f pos name)
  writeName : ∀ f name v, Q (Eval.writeName f name v)
  declare : ∀ f name params body, Q (Eval.declare f name params body)
  newFrame : ∀ f bindings, Q (Eval.newFrame f bindings)
  printLine : ∀ text, Q (Eval.printLine text)

section

variable {Q : {α : Type} → Eval α → Prop} (hQ : Eval.Closed Q)
include hQ

/-- Going on with a result that was computed from another. -/
theorem Eval.Closed.map {α β : Type} {m : Eval α} (hm : Q m) (f : α → β) :
    Q (m >>= fun a => pure (f a)) :=
  hQ.bind hm fun a => hQ.result (f a)

/-- The answer of an operator. -/
theorem Eval.Closed.operator {pos : Position} {op : Token.Kind} {types : List ValType}
    {x : Except EvalError Val} (h : OperatorAnswer pos op types x) : Q (Eval.ofExcept x) := by
  cases x with
  | ok v => exact hQ.result v
  | error e =>
    refine hQ.fail ?_
    rcases h with rfl | rfl | rfl <;> trivial

theorem Builtin.call_closed (b : Builtin) (args : List Val) (pos : Position) :
    Q (b.call args pos) := by
  unfold Builtin.call
  split
  · exact hQ.bind (hQ.printLine _) fun _ => hQ.result _
  · exact hQ.fail trivial

mutual

theorem Expr.eval_closed {call : CallRule} (hcall : ∀ c args pos, Q (call c args pos))
    (f : FrameId) : ∀ e : Expr, Q (e.eval call f)
  | .literal _ value => by
    rw [Expr.eval]
    exact hQ.result _
  | .var pos name => by
    rw [Expr.eval]
    exact hQ.readName f pos name
  | .unary pos op operand => by
    rw [Expr.eval]
    exact hQ.bind (Expr.eval_closed hcall f operand) fun x =>
      hQ.operator (unaryValue_answer pos op x)
  | .binary pos op left right => by
    rw [Expr.eval]
    have hright := Expr.eval_closed hcall f right
    apply hQ.bind (Expr.eval_closed hcall f left)
    intro l
    split
    · split
      · exact hQ.result _
      · exact hQ.map hright _
    · split
      · split
        · exact hQ.map hright _
        · exact hQ.result _
      · exact hQ.bind hright fun r => hQ.operator (binaryValue_answer pos op l r)
  | .call pos callee args => by
    rw [Expr.eval]
    have hargs := Expr.evalAll_closed hcall f args
    apply hQ.bind (Expr.eval_closed hcall f callee)
    intro v
    split
    · split
      · exact hQ.bind hargs fun values => hcall _ values pos
      · exact hQ.fail trivial
    · exact hQ.bind hargs fun values => Builtin.call_closed hQ _ values pos
    · exact hQ.fail trivial

theorem Expr.evalAll_closed {call : CallRule} (hcall : ∀ c args pos, Q (call c args pos))
    (f : FrameId) : ∀ es : List Expr, Q (Expr.evalAll call f es)
  | [] => by
    rw [Expr.evalAll]
    exact hQ.result _
  | e :: rest => by
    rw [Expr.evalAll]
    exact hQ.bind (Expr.eval_closed hcall f e) fun v => hQ.map (Expr.evalAll_closed hcall f rest) _

end

theorem loopCondition_closed {call : CallRule} (hcall : ∀ c args pos, Q (call c args pos))
    (f : FrameId) (condition : Option Expr) : Q (loopCondition call f condition) := by
  unfold loopCondition
  split
  · exact hQ.result _
  · exact hQ.map (Expr.eval_closed hQ hcall f _) _

mutual

theorem Stmt.exec_closed {call : CallRule} {loop : LoopRule}
    (hcall : ∀ c args pos, Q (call c args pos))
    (hloop : ∀ f pos condition body, Q (loop f pos condition body)) (f : FrameId) :
    ∀ s : Stmt, Q (s.exec call loop f)
  | .expr e => by
    rw [Stmt.exec]
    exact hQ.map (Expr.eval_closed hQ hcall f e) _
  | .assign name value => by
    rw [Stmt.exec]
    exact hQ.bind (Expr.eval_closed hQ hcall f value) fun v => hQ.map (hQ.writeName f name v) _
  | .block body => by
    rw [Stmt.exec]
    exact hQ.bind (hQ.newFrame f []) fun frame => Stmt.execAll_closed hcall hloop frame body
  | .ifThen condition body => by
    rw [Stmt.exec]
    apply hQ.bind (Expr.eval_closed hQ hcall f condition)
    intro v
    split
    · exact Stmt.exec_closed hcall hloop f body
    · exact hQ.result _
  | .forLoop pos condition body => by
    rw [Stmt.exec]
    exact hloop f pos condition body
  | .breakLoop => by
    rw [Stmt.exec]
    exact hQ.result _
  | .continueLoop => by
    rw [Stmt.exec]
    exact hQ.result _
  | .returnValue none => by
    rw [Stmt.exec]
    exact hQ.result _
  | .returnValue (some value) => by
    rw [Stmt.exec]
    exact hQ.map (Expr.eval_closed hQ hcall f value) _
  | .function name params body => by
    rw [Stmt.exec]
    exact hQ.map (hQ.declare f name params body) _

theorem Stmt.execAll_closed {call : CallRule} {loop : LoopRule}
    (hcall : ∀ c args pos, Q (call c args pos))
    (hloop : ∀ f pos condition body, Q (loop f pos condition body)) (f : FrameId) :
    ∀ body : List Stmt, Q (Stmt.execAll call loop f body)
  | [] => by
    rw [Stmt.execAll]
    exact hQ.result _
  | s :: rest => by
    rw [Stmt.execAll]
    apply hQ.bind (Stmt.exec_closed hcall hloop f s)
    intro flow
    split
    · exact Stmt.execAll_closed hcall hloop f rest
    · exact hQ.result _

end

theorem Flow.callResult_closed (flow : Flow) : Q flow.callResult := by
  cases flow with
  | normal => exact hQ.result _
  | breaking => exact hQ.fail trivial
  | continuing => exact hQ.fail trivial
  | returning v => exact hQ.result v

/-- The property holds of a program, if it holds of calls and loops. -/
theorem runProgram_closed {fuel : Nat} (hcall : ∀ c args pos, Q (callWithin fuel c args pos))
    (hloop : ∀ f pos condition body, Q (loopWithin fuel f pos condition body)) :
    ∀ program : List Stmt, Q (runProgram fuel program) := by
  intro program
  induction program with
  | nil =>
    rw [runProgram]
    exact hQ.result _
  | cons s rest ih =>
    rcases runProgram_cons fuel s rest with ⟨e, rfl, rfl⟩ | heq
    · rw [runProgram]
      exact hQ.map (Expr.eval_closed hQ hcall Heap.root e) _
    · rw [heq]
      apply hQ.bind (Stmt.exec_closed hQ hcall hloop Heap.root s)
      intro flow
      cases flow with
      | normal => exact ih
      | breaking => exact hQ.fail trivial
      | continuing => exact hQ.fail trivial
      | returning v => exact hQ.fail trivial

end

/-! ## Runs -/

theorem Eval.Built.closed : Eval.Closed fun m => m.Built where
  result := .result
  fail := .fail
  bind := .bind
  readName := .readName
  writeName := .writeName
  declare := .declare
  newFrame := .newFrame
  printLine := .printLine

/-- Calls and loops are built from effects, with any fuel. -/
theorem rules_built (fuel : Nat) :
    (∀ c args pos, (callWithin fuel c args pos).Built) ∧
      ∀ f pos condition body, (loopWithin fuel f pos condition body).Built := by
  induction fuel with
  | zero =>
    constructor
    · intro c args pos
      rw [callWithin]
      exact .unfinished
    · intro f pos condition body
      rw [loopWithin]
      exact .unfinished
  | succ fuel ih =>
    obtain ⟨hcall, hloop⟩ := ih
    constructor
    · intro c args pos
      rw [callWithin]
      refine Eval.Built.insideCall ((Eval.Built.newFrame _ _).bind fun frame => ?_) pos
      refine (Stmt.execAll_closed Eval.Built.closed hcall hloop frame c.body).bind fun flow => ?_
      exact Flow.callResult_closed Eval.Built.closed flow
    · intro f pos condition body
      rw [loopWithin]
      apply (loopCondition_closed Eval.Built.closed hcall f condition).bind
      intro again
      split
      · apply (Eval.Built.step pos).bind
        intro _
        apply (Stmt.exec_closed Eval.Built.closed hcall hloop f body).bind
        intro flow
        split
        · exact .result _
        · exact .result _
        · exact hloop f pos condition body
      · exact .result _

/-- A program is built from effects, with any fuel. -/
theorem runProgram_built (fuel : Nat) (program : List Stmt) :
    (runProgram fuel program).Built := by
  obtain ⟨hcall, hloop⟩ := rules_built fuel
  exact runProgram_closed Eval.Built.closed hcall hloop program

/-! ## The depth of calls -/

namespace Eval

/-- Parts in a row end with a result if each of them does. -/
theorem bind_eq_done {α β : Type} {m : Eval α} {next : α → Eval β} {st st'' : State} {b : β} :
    (m >>= next) st = .done b st'' ↔ ∃ a st', m st = .done a st' ∧ next a st' = .done b st'' := by
  rw [bind_apply]
  constructor
  · intro h
    cases hm : m st with
    | done a st' =>
      rw [hm] at h
      exact ⟨a, st', rfl, h⟩
    | failed e st' =>
      rw [hm] at h
      cases h
    | unfinished =>
      rw [hm] at h
      cases h
    | crashed =>
      rw [hm] at h
      cases h
  · rintro ⟨a, st', hm, hnext⟩
    rw [hm]
    exact hnext

/-- A step is charged whether or not the limit allows it. -/
theorem step_state {pos : Position} {st st' : State} (h : (step pos st).state? = some st') :
    st' = { st with steps := st.steps + 1 } := by
  unfold step at h
  cases hl : st.limit? with
  | none =>
    rw [hl] at h
    exact (Option.some.inj h).symm
  | some limit =>
    rw [hl] at h
    dsimp only at h
    split at h <;> exact (Option.some.inj h).symm

/-- Reading a name changes nothing. -/
theorem readName_state {f : FrameId} {pos : Position} {name : String} {st st' : State}
    (h : (readName f pos name st).state? = some st') : st' = st := by
  unfold readName at h
  split at h <;> exact (Option.some.inj h).symm

/-- Printing changes the sink only, whether or not that takes all of the line. -/
theorem printLine_state {text : String} {st st' : State}
    (h : (printLine text st).state? = some st') :
    st' = { st with sink := (st.sink.writeLine text).2 } := by
  unfold printLine at h
  rcases hw : st.sink.writeLine text with ⟨_ | cause, sink⟩ <;>
  · rw [hw] at h
    exact (Option.some.inj h).symm

theorem enterCall_done {pos : Position} {st st' : State} {u : Unit}
    (h : enterCall pos st = .done u st') :
    st' = { st with steps := st.steps + 1, depth := st.depth + 1 } := by
  unfold enterCall at h
  split at h
  · cases h
  · have hstate : (step pos { st with depth := st.depth + 1 }).state? = some st' := by
      rw [h]
      rfl
    exact step_state hstate

end Eval

/-- The outcome once a function was left behind it. -/
def Outcome.leave {α : Type} : Outcome α → Outcome α
  | .done a st => if st.depth = 0 then .crashed else .done a { st with depth := st.depth - 1 }
  | .failed e st => if st.depth = 0 then .crashed else .failed e { st with depth := st.depth - 1 }
  | .unfinished => .unfinished
  | .crashed => .crashed

/-- A function is left whether its body ends with a result or with an error. -/
theorem Eval.alwaysThen_leaveCall {α : Type} (m : Eval α) (st : State) :
    alwaysThen m leaveCall st = (m st).leave := by
  unfold alwaysThen Outcome.leave
  cases m st with
  | done a mid =>
    obtain ⟨heap, sink, steps, limit?, depth⟩ := mid
    cases depth <;> rfl
  | failed e mid =>
    obtain ⟨heap, sink, steps, limit?, depth⟩ := mid
    cases depth <;> rfl
  | unfinished | crashed => rfl

/-- Leaving a function changes nothing but the depth. -/
theorem Outcome.state?_leave {α : Type} {o : Outcome α} {st' : State}
    (h : o.leave.state? = some st') :
    ∃ st, o.state? = some st ∧ st' = { st with depth := st.depth - 1 } := by
  cases o with
  | done a st =>
    rw [leave] at h
    split at h
    · cases h
    · exact ⟨st, rfl, (Option.some.inj h).symm⟩
  | failed e st =>
    rw [leave] at h
    split at h
    · cases h
    · exact ⟨st, rfl, (Option.some.inj h).symm⟩
  | unfinished | crashed => cases h

theorem Outcome.of_leave_done {α : Type} {o : Outcome α} {a : α} {st' : State}
    (h : o.leave = .done a st') :
    ∃ st, o = .done a st ∧ st' = { st with depth := st.depth - 1 } := by
  cases o with
  | done b st =>
    rw [leave] at h
    split at h
    · cases h
    · cases h
      exact ⟨st, rfl, rfl⟩
  | failed e st =>
    rw [leave] at h
    split at h <;> cases h
  | unfinished | crashed => cases h

/-- As many functions are running behind a result as `depth` says, and no fewer behind an error; and
nothing was left that had not been entered. -/
def Outcome.LeavesDepth {α : Type} (depth : Nat) : Outcome α → Prop
  | .done _ st => st.depth = depth
  | .failed _ st => depth ≤ st.depth
  | .unfinished => True
  | .crashed => False

namespace Eval

variable {α β : Type} {m : Eval α} {depth : Nat} {st : State}

theorem LeavesDepth.bind {next : α → Eval β} (hm : (m st).LeavesDepth depth)
    (hnext : ∀ a st', st'.depth = depth → (next a st').LeavesDepth depth) :
    ((m >>= next) st).LeavesDepth depth := by
  rw [bind_apply]
  cases hr : m st with
  | done a st' =>
    rw [hr] at hm
    exact hnext a st' hm
  | failed e st' =>
    rw [hr] at hm
    exact hm
  | unfinished => trivial
  | crashed =>
    rw [hr] at hm
    exact hm

theorem enterCall_leavesDepth (pos : Position) (st : State) :
    (∃ e out, enterCall pos st = .failed e out ∧ st.depth ≤ out.depth) ∨
      enterCall pos st = .done () { st with steps := st.steps + 1, depth := st.depth + 1 } := by
  unfold enterCall step
  split
  · exact .inl ⟨_, _, rfl, Nat.le_refl _⟩
  · dsimp only
    split
    · split
      · exact .inl ⟨_, _, rfl, Nat.le_succ _⟩
      · exact .inr rfl
    · exact .inr rfl

/-- **A call that was entered is left.** Where the body of a call leaves no more functions than it
enters, the call fails before its body, or leaves the function behind it, whether the body ends with
a result or with an error. -/
theorem insideCall_cases (pos : Position)
    (hm : ∀ st : State, (m st).LeavesDepth st.depth) (st : State) :
    (∃ e out, enterCall pos st = .failed e out ∧ insideCall pos m st = .failed e out ∧
      st.depth ≤ out.depth) ∨
    ∃ inside, inside = { st with steps := st.steps + 1, depth := st.depth + 1 } ∧
      enterCall pos st = .done () inside ∧
      ((∃ a out, m inside = .done a out ∧ out.depth = st.depth + 1 ∧
          insideCall pos m st = .done a { out with depth := st.depth }) ∨
        (∃ e out, m inside = .failed e out ∧ st.depth + 1 ≤ out.depth ∧
          insideCall pos m st = .failed e { out with depth := out.depth - 1 }) ∨
        m inside = .unfinished ∧ insideCall pos m st = .unfinished) := by
  rcases enterCall_leavesDepth pos st with ⟨e, out, henter, hdepth⟩ | henter
  · refine .inl ⟨e, out, henter, ?_, hdepth⟩
    unfold insideCall andThen
    rw [henter]
  · refine .inr ⟨_, rfl, henter, ?_⟩
    have hbody := hm { st with steps := st.steps + 1, depth := st.depth + 1 }
    unfold insideCall andThen
    rw [henter]
    dsimp only
    rw [alwaysThen_leaveCall]
    cases hr : m { st with steps := st.steps + 1, depth := st.depth + 1 } with
    | done a out =>
      rw [hr] at hbody
      have hout : out.depth = st.depth + 1 := hbody
      refine .inl ⟨a, out, rfl, hout, ?_⟩
      simp [Outcome.leave, hout]
    | failed e out =>
      rw [hr] at hbody
      have hout : st.depth + 1 ≤ out.depth := hbody
      refine .inr (.inl ⟨e, out, rfl, hout, ?_⟩)
      have hentered : out.depth ≠ 0 := by omega
      simp [Outcome.leave, hentered]
    | unfinished => exact .inr (.inr ⟨rfl, rfl⟩)
    | crashed =>
      rw [hr] at hbody
      exact hbody.elim

/-- What is built from effects leaves as many functions as it enters, unless it fails, and never
more. -/
theorem Built.leavesDepth (hm : m.Built) (st : State) : (m st).LeavesDepth st.depth := by
  induction hm generalizing st with
  | result a => exact rfl
  | fail _ => exact Nat.le_refl st.depth
  | unfinished => trivial
  | bind _ _ ihm ihnext =>
    exact LeavesDepth.bind (ihm st) fun a st' hdepth => hdepth ▸ ihnext a st'
  | step pos =>
    unfold Eval.step
    split
    · dsimp only
      split
      · exact Nat.le_refl st.depth
      · exact rfl
    · exact rfl
  | insideCall _ pos ih =>
    rcases insideCall_cases pos ih st with ⟨e, out, -, hcall, hdepth⟩ |
      ⟨inside, -, -, ⟨a, out, -, -, hcall⟩ | ⟨e, out, -, hdepth, hcall⟩ | ⟨-, hcall⟩⟩ <;> rw [hcall]
    · exact hdepth
    · exact rfl
    · show st.depth ≤ out.depth - 1
      omega
    · trivial
  | readName f pos name =>
    unfold Eval.readName
    split
    · exact rfl
    · exact Nat.le_refl st.depth
  | writeName f name v => exact rfl
  | declare f name params body => exact rfl
  | newFrame f bindings => exact rfl
  | printLine text =>
    unfold Eval.printLine
    split
    · exact rfl
    · exact Nat.le_refl st.depth

/-- As many functions are running inside each other afterwards as before. -/
theorem Built.depth_eq (hm : m.Built) {st' : State} {a : α} (h : m st = .done a st') :
    st'.depth = st.depth := by
  have hleaves := hm.leavesDepth st
  rw [h] at hleaves
  exact hleaves

/-- No function is left that was not entered. -/
theorem Built.ne_crashed (hm : m.Built) (st : State) : m st ≠ .crashed := by
  intro h
  have hleaves := hm.leavesDepth st
  rw [h] at hleaves
  exact hleaves

end Eval

end TwinScript
