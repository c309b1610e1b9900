import TwinScript.Proofs.Eval.Operators
import TwinScript.Proofs.Eval.Triple
import TwinScript.Proofs.Heap
import TwinScript.Proofs.Interpreter
import TwinScript.Proofs.Syntax.Functions
import Mathlib.Logic.Relation

/-!
# Signals never stray

The parser refuses `break`, `continue` and `return` where nothing receives them; the evaluator
passes them up until a loop or a call does. Here the two are tied together.

* A value is *contained* if it is no function, or one whose body is placed in the context of a
  function, like the bodies of the functions that stand in it. A heap is contained if all values
  bound in its frames are.
* A statement placed in a context only ends in the ways that this context receives
  (`Stmt.exec_contained`), and leaves a contained heap contained.
* `Interpreter.Change` lists what may happen to an interpreter between two runs, and every
  interpreter that a new one may change into has a contained heap
  (`Interpreter.contained_of_changes`).
-/

namespace TwinScript

/-! ## Contained values -/

/-- The body of the function is placed in the context of a function. -/
def Closure.Placed (c : Closure) : Prop := Stmt.AllPlaced ⟨false, true⟩ c.body

/-- A function whose signals stay inside it, or no function at all. -/
def Val.Contained : Val → Prop
  | .closure c => c.Placed ∧ Stmt.AllFunctionsAre Closure.Placed c.body
  | _ => True

/-- Every value bound in a frame is contained. -/
def Heap.Contained (h : Heap) : Prop :=
  ∀ f name v, h.here? f name = some v → v.Contained

/-- The state has a contained heap. -/
def State.Contained (st : State) : Prop := st.heap.Contained

/-- The error is no signal that nothing was there to receive. -/
def EvalError.IsReceived (e : EvalError) : Prop := ∀ k, e ≠ .strayControl k

/-- The ways to end that something in the context `ctx` receives. -/
def Flow.Within (ctx : Context) : Flow → Prop
  | .normal => True
  | .breaking => ctx.inLoop = true
  | .continuing => ctx.inLoop = true
  | .returning v => ctx.inFunction = true ∧ v.Contained

/-- A part of a program that keeps heaps contained, lets no signal stray, and ends with a result
that has `P`. -/
abbrev Eval.Contains {α : Type} (m : Eval α) (P : α → Prop) : Prop :=
  m.Keeps State.Contained EvalError.IsReceived P

namespace Heap

/-- The builtins are no functions of a program. -/
theorem contained_initial : Heap.initial.Contained := by
  intro f name v h
  rw [here?_initial] at h
  cases h

/-- A value that is read is bound in one of the frames. -/
theorem Contained.get? {h : Heap} (hh : h.Contained) {f : FrameId} {name : String} {v : Val}
    (hv : h.get? f name = some v) : v.Contained := by
  unfold Heap.get? at hv
  rw [Option.bind_eq_some_iff] at hv
  obtain ⟨g, _, hg⟩ := hv
  exact hh g name v hg

/-- Only the value that is bound is new. -/
theorem Contained.define {h : Heap} (hh : h.Contained) (f : FrameId) (name : String) {v : Val}
    (hv : v.Contained) : (h.define f name v).Contained := by
  intro g other w hw
  rcases here?_define_cases hw with rfl | hw
  · exact hv
  · exact hh g other w hw

/-- An assignment binds its value in one of the frames. -/
theorem Contained.bind {h : Heap} (hh : h.Contained) (f : FrameId) (name : String) {v : Val}
    (hv : v.Contained) : (h.bind f name v).Contained :=
  bind_eq h f name v ▸ hh.define _ name hv

/-- The body of a declared function is placed inside a function. -/
theorem Contained.declare {h : Heap} (hh : h.Contained) (f : FrameId) (name : String)
    (params : List String) {body : List Stmt} (hb : Stmt.AllPlaced ⟨false, true⟩ body)
    (hfunctions : Stmt.AllFunctionsAre Closure.Placed body) :
    (h.declare f name params body).Contained := by
  have hcount : Heap.Contained { h with closures := h.closures + 1 } := hh
  exact hcount.define f name ⟨hb, hfunctions⟩

/-- Of a new frame only its own bindings matter. -/
theorem Contained.child {h : Heap} (hh : h.Contained) (f : FrameId) {bs : Bindings}
    (hbs : ∀ name v, bs.get? name = some v → v.Contained) : (h.child f bs).2.Contained := by
  intro g name v hv
  rw [here?_child] at hv
  split at hv
  · exact hbs name v hv
  · exact hh g name v hv

end Heap

/-! ## The primitives -/

section primitives

/-- What is read was bound, and an unknown name is no stray signal. -/
theorem readName_contains (f : FrameId) (pos : Position) (name : String) :
    (Eval.readName f pos name).Contains Val.Contained := by
  intro st hst
  unfold Eval.readName
  cases hv : st.heap.get? f name with
  | none => exact ⟨fun k => by simp, hst⟩
  | some v => exact ⟨Heap.Contained.get? hst hv, hst⟩

/-- What is written is contained. -/
theorem writeName_contains (f : FrameId) (name : String) {v : Val} (hv : v.Contained) :
    (Eval.writeName f name v).Contains fun _ => True :=
  fun _ hst => ⟨True.intro, Heap.Contained.bind hst f name hv⟩

/-- What is declared is contained. -/
theorem declare_contains (f : FrameId) (name : String) (params : List String) {body : List Stmt}
    (hb : Stmt.AllPlaced ⟨false, true⟩ body)
    (hfunctions : Stmt.AllFunctionsAre Closure.Placed body) :
    (Eval.declare f name params body).Contains fun _ => True :=
  fun _ hst => ⟨True.intro, Heap.Contained.declare hst f name params hb hfunctions⟩

/-- The bindings of the new frame are contained. -/
theorem newFrame_contains (f : FrameId) {bs : Bindings}
    (hbs : ∀ name v, bs.get? name = some v → v.Contained) :
    (Eval.newFrame f bs).Contains fun _ => True :=
  fun _ hst => ⟨True.intro, Heap.Contained.child hst f hbs⟩

/-- A step changes no heap, and the step limit is no stray signal. -/
theorem step_contains (pos : Position) : (Eval.step pos).Contains fun _ => True := by
  intro st hst
  unfold Eval.step
  cases st.limit? with
  | none => exact ⟨True.intro, hst⟩
  | some limit =>
    dsimp only
    split
    · exact ⟨fun k => by simp, hst⟩
    · exact ⟨True.intro, hst⟩

/-- Nor does entering a function, and that calls are too deep is no stray signal. -/
theorem enterCall_contains (pos : Position) : (Eval.enterCall pos).Contains fun _ => True := by
  intro st hst
  unfold Eval.enterCall
  split
  · exact ⟨fun k => by simp, hst⟩
  · exact step_contains pos _ hst

/-- Nor does leaving one. -/
theorem leaveCall_contains : Eval.leaveCall.Contains fun _ => True := by
  intro st hst
  unfold Eval.leaveCall
  split
  · exact True.intro
  · exact ⟨True.intro, hst⟩

/-- Nor does printing, and an error of the output is no stray signal. -/
theorem printLine_contains (text : String) : (Eval.printLine text).Contains fun _ => True := by
  intro st hst
  unfold Eval.printLine
  rcases st.sink.writeLine text with ⟨_ | cause, sink⟩
  · exact ⟨True.intro, hst⟩
  · exact ⟨fun k => by simp, hst⟩

end primitives

/-! ## Expressions -/

/-- A call rule lets no signal stray from a contained function that is called with contained
arguments. -/
def CallRule.Contained (call : CallRule) : Prop :=
  ∀ (c : Closure) (args : List Val) (pos : Position), (Val.closure c).Contained →
    (∀ v ∈ args, v.Contained) → (call c args pos).Contains Val.Contained

/-- There is nothing inside of a value that is no function. -/
theorem Val.contained_of_not_closure {v : Val} (h : ∀ c, v ≠ .closure c) : v.Contained := by
  cases v with
  | closure c => exact absurd rfl (h c)
  | _ => trivial

/-- An operator gives no function. -/
theorem operator_contains {pos : Position} {op : Token.Kind} {types : List ValType}
    {x : Except EvalError Val} (h : OperatorAnswer pos op types x) :
    (Eval.ofExcept x).Contains Val.Contained := by
  apply Eval.Keeps.ofExcept
  · rintro v rfl
    refine Val.contained_of_not_closure fun c hc => h ?_
    rw [hc, Val.type]
  · rintro e rfl k rfl
    rcases h with h | h | h <;> cases h

/-- A builtin gives no function either. -/
theorem Builtin.call_contains (b : Builtin) (args : List Val) (pos : Position) :
    (b.call args pos).Contains Val.Contained := by
  unfold Builtin.call
  split
  · exact (printLine_contains _).bind fun _ _ => Eval.Keeps.pure trivial
  · exact Eval.Keeps.fail fun k => by simp

mutual

/-- Expressions give contained values, and let no signal stray. -/
theorem Expr.eval_contained {call : CallRule} (hcall : call.Contained) (f : FrameId) :
    ∀ e : Expr, e.FunctionsAre Closure.Placed → (e.eval call f).Contains Val.Contained
  | .literal _ value, h => by
    rw [Expr.eval]
    apply Eval.Keeps.pure
    cases value with
    | function c => exact Literal.functionsAre_function.mp h
    | _ => trivial
  | .var pos name, _ => by
    rw [Expr.eval]
    exact readName_contains f pos name
  | .unary pos op operand, h => by
    rw [Expr.eval]
    apply (Expr.eval_contained hcall f operand h).bind
    intro x _
    exact operator_contains (unaryValue_answer pos op x)
  | .binary pos op left right, h => by
    rw [Expr.eval]
    have hright := Expr.eval_contained hcall f right h.2
    apply (Expr.eval_contained hcall f left h.1).bind
    intro l _
    have htruth : (do let r ← right.eval call f; pure (Val.bool r.truthy)).Contains
        Val.Contained := hright.bind fun r _ => Eval.Keeps.pure trivial
    split
    · split
      · exact Eval.Keeps.pure trivial
      · exact htruth
    · split
      · split
        · exact htruth
        · exact Eval.Keeps.pure trivial
      · apply hright.bind
        intro r _
        exact operator_contains (binaryValue_answer pos op l r)
  | .call pos callee args, h => by
    rw [Expr.eval]
    apply (Expr.eval_contained hcall f callee h.1).bind
    intro v hv
    have hargs := Expr.evalAll_contained hcall f args h.2
    split
    · next c =>
      split
      · exact hargs.bind fun values hvalues => hcall c values pos hv hvalues
      · exact Eval.Keeps.fail fun k => by simp
    · next b => exact hargs.bind fun values _ => b.call_contains values pos
    · exact Eval.Keeps.fail fun k => by simp

/-- The arguments of a call are contained one by one. -/
theorem Expr.evalAll_contained {call : CallRule} (hcall : call.Contained) (f : FrameId) :
    ∀ es : List Expr, Expr.AllFunctionsAre Closure.Placed es →
      (Expr.evalAll call f es).Contains fun vs => ∀ v ∈ vs, v.Contained
  | [], _ => by
    rw [Expr.evalAll]
    exact Eval.Keeps.pure (by simp)
  | e :: rest, h => by
    rw [Expr.evalAll]
    apply (Expr.eval_contained hcall f e h.1).bind
    intro v hv
    apply (Expr.evalAll_contained hcall f rest h.2).bind
    intro vs hvs
    exact Eval.Keeps.pure (by simpa using ⟨hv, hvs⟩)

end

/-! ## Statements -/

/-- A loop rule lets a loop end only in ways that the context around the loop receives, if its body
is placed inside the loop. -/
def LoopRule.Contained (loop : LoopRule) : Prop :=
  ∀ (ctx : Context) (f : FrameId) (pos : Position) (condition : Option Expr) (body : Stmt),
    (Stmt.forLoop pos condition body).FunctionsAre Closure.Placed →
      body.Placed { ctx with inLoop := true } →
        (loop f pos condition body).Contains (Flow.Within ctx)

mutual

/-- A statement that is placed in a context ends only in ways that the context receives. -/
theorem Stmt.exec_contained {call : CallRule} {loop : LoopRule} (hcall : call.Contained)
    (hloop : loop.Contained) (ctx : Context) (f : FrameId) :
    ∀ s : Stmt, s.FunctionsAre Closure.Placed → s.Placed ctx →
      (s.exec call loop f).Contains (Flow.Within ctx)
  | .expr e, hfunctions, _ => by
    rw [Stmt.exec]
    exact (Expr.eval_contained hcall f e hfunctions).bind fun _ _ => Eval.Keeps.pure trivial
  | .assign name value, hfunctions, _ => by
    rw [Stmt.exec]
    apply (Expr.eval_contained hcall f value hfunctions).bind
    intro v hv
    exact (writeName_contains f name hv).bind fun _ _ => Eval.Keeps.pure trivial
  | .block body, hfunctions, h => by
    rw [Stmt.exec]
    have hbody : Stmt.AllPlaced ctx body := h
    refine (newFrame_contains f fun _ _ hv => by cases hv).bind fun frame _ => ?_
    exact Stmt.execAll_contained hcall hloop ctx frame body hfunctions hbody
  | .ifThen condition body, hfunctions, h => by
    rw [Stmt.exec]
    have hbody : body.Placed ctx := h
    apply (Expr.eval_contained hcall f condition hfunctions.1).bind
    intro v _
    split
    · exact Stmt.exec_contained hcall hloop ctx f body hfunctions.2 hbody
    · exact Eval.Keeps.pure trivial
  | .forLoop pos condition body, hfunctions, h => by
    rw [Stmt.exec]
    have hbody : body.Placed { ctx with inLoop := true } := h
    exact hloop ctx f pos condition body hfunctions hbody
  | .breakLoop, _, h => by
    rw [Stmt.exec]
    have hloop : ctx.inLoop = true := h
    exact Eval.Keeps.pure hloop
  | .continueLoop, _, h => by
    rw [Stmt.exec]
    have hloop : ctx.inLoop = true := h
    exact Eval.Keeps.pure hloop
  | .returnValue none, _, h => by
    rw [Stmt.exec]
    have hfunction : ctx.inFunction = true := h
    exact Eval.Keeps.pure ⟨hfunction, trivial⟩
  | .returnValue (some value), hfunctions, h => by
    rw [Stmt.exec]
    have hfunction : ctx.inFunction = true := h
    apply (Expr.eval_contained hcall f value hfunctions).bind
    intro v hv
    exact Eval.Keeps.pure ⟨hfunction, hv⟩
  | .function name params body, hfunctions, h => by
    rw [Stmt.exec]
    have hbody : Stmt.AllPlaced ⟨false, true⟩ body := h
    apply (declare_contains f name params hbody hfunctions).bind
    exact fun _ _ => Eval.Keeps.pure trivial

/-- A list ends as one of its statements does, in the same context. -/
theorem Stmt.execAll_contained {call : CallRule} {loop : LoopRule} (hcall : call.Contained)
    (hloop : loop.Contained) (ctx : Context) (f : FrameId) :
    ∀ body : List Stmt, Stmt.AllFunctionsAre Closure.Placed body → Stmt.AllPlaced ctx body →
      (Stmt.execAll call loop f body).Contains (Flow.Within ctx)
  | [], _, _ => by
    rw [Stmt.execAll]
    exact Eval.Keeps.pure trivial
  | s :: rest, hfunctions, h => by
    rw [Stmt.execAll]
    have hs : s.Placed ctx ∧ Stmt.AllPlaced ctx rest := h
    apply (Stmt.exec_contained hcall hloop ctx f s hfunctions.1 hs.1).bind
    intro flow hflow
    split
    · exact Stmt.execAll_contained hcall hloop ctx f rest hfunctions.2 hs.2
    · exact Eval.Keeps.pure hflow

end

/-! ## Calls and loops -/

/-- The body of a function ends in no way but normally or with a value. -/
theorem Flow.callResult_contains {flow : Flow} (h : flow.Within ⟨false, true⟩) :
    flow.callResult.Contains Val.Contained := by
  cases flow with
  | normal => exact Eval.Keeps.pure trivial
  | breaking => cases h
  | continuing => cases h
  | returning v => exact Eval.Keeps.pure h.2

/-- The value of a condition is asked for its truth only. -/
theorem loopCondition_contains {call : CallRule} (hcall : call.Contained) (f : FrameId)
    {condition : Option Expr} (h : ∀ e ∈ condition, e.FunctionsAre Closure.Placed) :
    (loopCondition call f condition).Contains fun _ => True := by
  unfold loopCondition
  split
  · exact Eval.Keeps.pure trivial
  · next e => exact (Expr.eval_contained hcall f e (h e rfl)).bind fun _ _ => Eval.Keeps.pure trivial

/-- By induction on the fuel: a call runs a body that is placed inside a function, and turns what it
receives into a value; a loop runs one that is placed inside a loop. -/
theorem rules_contained (fuel : Nat) :
    (callWithin fuel).Contained ∧ (loopWithin fuel).Contained := by
  induction fuel with
  | zero =>
    constructor
    · intro c args pos _ _
      rw [callWithin]
      exact Eval.Keeps.unfinished
    · intro ctx f pos condition body _ _
      rw [loopWithin]
      exact Eval.Keeps.unfinished
  | succ fuel ih =>
    obtain ⟨hcall, hloop⟩ := ih
    constructor
    · intro c args pos hc hargs
      rw [callWithin]
      refine Eval.Keeps.insideCall ?_ (enterCall_contains pos) leaveCall_contains
      have hbound : ∀ name v, (Bindings.ofArguments c.params args).get? name = some v →
          v.Contained := fun name v hv => hargs v (Bindings.get?_ofArguments_mem hv)
      apply (newFrame_contains c.scope hbound).bind
      intro frame _
      refine (Stmt.execAll_contained hcall hloop ⟨false, true⟩ frame c.body hc.2 hc.1).bind ?_
      exact fun flow hflow => Flow.callResult_contains hflow
    · intro ctx f pos condition body hfunctions hbody
      obtain ⟨hcondition, hinside⟩ := Stmt.functionsAre_forLoop.mp hfunctions
      rw [loopWithin]
      apply (loopCondition_contains hcall f hcondition).bind
      intro again _
      split
      · apply (step_contains pos).bind
        intro _ _
        apply (Stmt.exec_contained hcall hloop _ f body hinside hbody).bind
        intro flow hflow
        split
        · exact Eval.Keeps.pure trivial
        · exact Eval.Keeps.pure hflow
        · exact hloop ctx f pos condition body hfunctions hbody
      · exact Eval.Keeps.pure trivial

/-! ## Programs -/

/-- Outside of loops and functions there is no signal to receive, so a program ends with a value or
with an error. -/
theorem runProgram_contained (fuel : Nat) (program : List Stmt)
    (hfunctions : Stmt.AllFunctionsAre Closure.Placed program)
    (h : Stmt.AllPlaced ⟨false, false⟩ program) :
    (runProgram fuel program).Contains fun v? => ∀ v, v? = some v → v.Contained := by
  obtain ⟨hcall, hloop⟩ := rules_contained fuel
  induction program with
  | nil =>
    rw [runProgram]
    exact Eval.Keeps.pure (by simp)
  | cons s rest ih =>
    have hs : s.Placed ⟨false, false⟩ ∧ Stmt.AllPlaced ⟨false, false⟩ rest := h
    rcases runProgram_cons fuel s rest with ⟨e, rfl, rfl⟩ | heq
    · rw [runProgram]
      apply (Expr.eval_contained hcall Heap.root e hfunctions.1).bind
      intro v hv
      exact Eval.Keeps.pure (by simpa using hv)
    · rw [heq]
      apply (Stmt.exec_contained hcall hloop _ Heap.root s hfunctions.1 hs.1).bind
      intro flow hflow
      cases flow with
      | normal => exact ih hfunctions.2 hs.2
      | breaking => cases hflow
      | continuing => cases hflow
      | returning v => cases hflow.1

/-! ## Interpreters -/

/-- What may happen to an interpreter from outside: it runs a text, with any answer; a global that
is no function of a program is defined; or its step limit is set. -/
inductive Interpreter.Change : Interpreter → Interpreter → Prop where
  | run {it after : Interpreter} {fuel : Nat} {code : String}
      {answer : Except ProgramError (Option Val)}
      (h : it.runWithin fuel code = some (answer, after)) : Change it after
  | defineGlobal (it : Interpreter) (name : String) {v : Val} (h : ∀ c, v ≠ .closure c) :
      Change it (it.defineGlobal name v)
  | setLimit (it : Interpreter) (limit? : Option Nat) : Change it { it with limit? }

/-- One interpreter turns into the other by changes from outside. -/
abbrev Interpreter.Changes : Interpreter → Interpreter → Prop :=
  Relation.ReflTransGen Interpreter.Change

namespace Interpreter

/-- Executing a placed program lets no signal stray, and keeps the heap contained. -/
theorem executeWithin_contained {it after : Interpreter} {fuel : Nat} {program : List Stmt}
    {answer : Except EvalError (Option Val)} (hit : it.heap.Contained)
    (hfunctions : Stmt.AllFunctionsAre Closure.Placed program)
    (hp : Stmt.AllPlaced ⟨false, false⟩ program)
    (h : it.executeWithin fuel program = some (answer, after)) :
    after.heap.Contained ∧ ∀ e, answer = .error e → e.IsReceived := by
  have hrun := runProgram_contained fuel program hfunctions hp it.start hit
  have hflush (st : State) (e : EvalError) (given : Except EvalError (Option Val))
      (hgiven : ∀ e, given = .error e → e.IsReceived)
      (he : st.sink.answerAfterFlush given = .error e) : e.IsReceived := by
    unfold Sink.answerAfterFlush at he
    split at he
    · exact hgiven e he
    · cases he
      exact fun k => by simp
  rw [executeWithin_eq] at h
  cases hr : runProgram fuel program it.start with
  | unfinished =>
    rw [hr] at h
    cases h
  | crashed =>
    rw [hr] at h
    cases h
  | done v? st =>
    rw [hr] at h hrun
    cases h
    exact ⟨hrun.2, fun e => hflush st e _ fun _ he => by cases he⟩
  | failed e st =>
    rw [hr] at h hrun
    cases h
    refine ⟨hrun.2, fun e' => hflush st e' _ ?_⟩
    rintro _ ⟨⟩
    exact hrun.1

/-- Running a text lets no signal stray, and keeps the heap contained. -/
theorem runWithin_contained {it after : Interpreter} {fuel : Nat} {code : String}
    {answer : Except ProgramError (Option Val)} (hit : it.heap.Contained)
    (h : it.runWithin fuel code = some (answer, after)) :
    after.heap.Contained ∧ ∀ e, answer = .error (.eval e) → e.IsReceived := by
  obtain ⟨_, hfailed, rfl, rfl⟩ | ⟨program, given, hread, hexecute, rfl⟩ := runWithin_cases h
  · refine ⟨hit, fun e he => ?_⟩
    cases he
    exact absurd hfailed (readProgram_ne_eval code e)
  · obtain ⟨tokens, _, hparse⟩ := readProgram_eq_ok.mp hread
    obtain ⟨hafter, hgiven⟩ := executeWithin_contained hit
      (parse_functionsAre hparse) (parse_placed hparse) hexecute
    refine ⟨hafter, fun e he => ?_⟩
    cases given with
    | ok v => cases he
    | error e' =>
      cases he
      exact hgiven e rfl

/-- Whatever happens to a contained interpreter from outside, it stays contained. -/
theorem contained_of_changes {it after : Interpreter} (h : Changes it after)
    (hit : it.heap.Contained) : after.heap.Contained := by
  induction h with
  | refl => exact hit
  | tail _ hlast ih =>
    cases hlast with
    | run hrun => exact (runWithin_contained ih hrun).1
    | defineGlobal name hv =>
      apply Heap.Contained.define ih _ name
      exact Val.contained_of_not_closure hv
    | setLimit limit? => exact ih

end Interpreter

/-- **Signals never stray.** An interpreter that a new one has turned into runs no text that ends
with a signal which nothing was there to receive. Nor does any function that it keeps in a frame end
so, whenever it is called later: on the frames that the interpreter has by then, with arguments that
are bound there or are no functions. -/
theorem no_signal_strays {sink : Sink} {limit? : Option Nat} {it later : Interpreter}
    (hit : (Interpreter.new sink limit?).Changes it) (hlater : it.Changes later) :
    (∀ fuel code k after,
      it.runWithin fuel code ≠ some (.error (.eval (.strayControl k)), after)) ∧
    ∀ f name c, it.heap.here? f name = some (.closure c) →
      ∀ fuel args pos st, st.heap = later.heap →
        (∀ v ∈ args, (∃ g other, later.heap.here? g other = some v) ∨ ∀ d, v ≠ .closure d) →
          ∀ k after, callWithin fuel c args pos st ≠ .failed (.strayControl k) after := by
  have hheap : it.heap.Contained := Interpreter.contained_of_changes hit Heap.contained_initial
  have hheap' : later.heap.Contained := Interpreter.contained_of_changes hlater hheap
  constructor
  · intro fuel code k after h
    exact (Interpreter.runWithin_contained hheap h).2 _ rfl k rfl
  · intro f name c hc fuel args pos st hst hargs k after h
    have hcontained : ∀ v ∈ args, v.Contained := by
      intro v hv
      rcases hargs v hv with ⟨g, other, hg⟩ | hno
      · exact hheap' g other v hg
      · exact Val.contained_of_not_closure hno
    have hst' : st.Contained := by
      unfold State.Contained
      rw [hst]
      exact hheap'
    have hcall := (rules_contained fuel).1 c args pos (hheap f name _ hc) hcontained st hst'
    rw [h] at hcall
    exact hcall.1 k rfl

/-- The function that a value is, if a program has declared it. -/
def Val.closure? : Val → Option Closure
  | .closure c => some c
  | _ => none

/-- A function with a loop that is left by `break`, declared by a first text and called later. -/
theorem no_signal_strays_from_loop :
    ∃ it c, (Interpreter.new .unlimited none).Changes it ∧
      it.heap.here? Heap.root "f" = some (.closure c) ∧
      (∀ fuel code k after,
        it.runWithin fuel code ≠ some (.error (.eval (.strayControl k)), after)) ∧
      ∀ fuel pos k after, callWithin fuel c [] pos it.start ≠ .failed (.strayControl k) after := by
  have hbound : (((Interpreter.new .unlimited none).runWithin 9
      "fn f() \x7b for \x7b break \x7d \x7d").bind fun r =>
        ((r.2.heap.here? Heap.root "f").bind Val.closure?).map (·.name)) = some "f" := by
    decide +kernel
  obtain ⟨⟨answer, it⟩, hrun, hname⟩ := Option.bind_eq_some_iff.mp hbound
  obtain ⟨c, hclosure, -⟩ := Option.map_eq_some_iff.mp hname
  obtain ⟨v, hc, hv⟩ := Option.bind_eq_some_iff.mp hclosure
  obtain rfl : v = .closure c := by
    cases v <;> cases hv
    rfl
  have hit : (Interpreter.new .unlimited none).Changes it :=
    Relation.ReflTransGen.single (.run hrun)
  obtain ⟨htexts, hcalls⟩ := no_signal_strays hit Relation.ReflTransGen.refl
  refine ⟨it, c, hit, hc, htexts, fun fuel pos k after => ?_⟩
  exact hcalls Heap.root "f" c hc fuel [] pos it.start rfl (by simp) k after

end TwinScript
