import TwinScript.Proofs.Eval.Fuel
import TwinScript.Proofs.Eval.Scoping
import TwinScript.Proofs.Eval.StepLimit
import TwinScript.Proofs.Region
import Mathlib.Tactic.Common

/-!
# Only loops run forever

Recursion ends by itself, since no more than `maxCallDepth` functions may be running inside each
other: between one call and the next evaluation follows the tree at hand, and every call takes one
of the levels that are left and gives it back when it returns. So whatever functions a program calls
in whatever way, it ends, as long as there is no loop in it nor in any function that it can come to.

* `Heap.ReachesNoLoop`: what is asked of the functions that are there when a program begins.
* `Heap.LoopFreeIn`: what a run without loops keeps true of the heap. Functions are found in frames
  that can be reached from the root, and all that are found or made have no loop in their body.
* `Stmt.exec_ends`: a statement ends if the calls in it do.
* `callWithin_ends`: calls end, with more fuel than there are levels left.
* `only_loops_run_forever`: so do programs.
-/

namespace TwinScript

/-! ## Statements and functions without loops -/

mutual

/-- If the value is a function, there is no loop in its body. -/
def Literal.LoopFree : Literal → Prop
  | .function ⟨_, _, _, body, _⟩ => Stmt.AllLoopFree body
  | _ => True

/-- There is no loop in the functions that stand in the expression. -/
def Expr.LoopFree : Expr → Prop
  | .literal _ value => value.LoopFree
  | .var _ _ => True
  | .unary _ _ operand => operand.LoopFree
  | .binary _ _ left right => left.LoopFree ∧ right.LoopFree
  | .call _ callee args => callee.LoopFree ∧ Expr.AllLoopFree args

/-- There is no loop in the functions that stand in the expressions. -/
def Expr.AllLoopFree : List Expr → Prop
  | [] => True
  | e :: rest => e.LoopFree ∧ Expr.AllLoopFree rest

/-- There is no loop in the statement, nor in the functions that it declares or that stand in it as
values. -/
def Stmt.LoopFree : Stmt → Prop
  | .expr e => e.LoopFree
  | .assign _ value => value.LoopFree
  | .block body => Stmt.AllLoopFree body
  | .ifThen condition body => condition.LoopFree ∧ body.LoopFree
  | .forLoop .. => False
  | .breakLoop => True
  | .continueLoop => True
  | .returnValue none => True
  | .returnValue (some value) => value.LoopFree
  | .function _ _ body => Stmt.AllLoopFree body

/-- There is no loop in any of the statements. -/
def Stmt.AllLoopFree : List Stmt → Prop
  | [] => True
  | s :: rest => s.LoopFree ∧ Stmt.AllLoopFree rest

end

/-- A function that stands in a tree is without loops if its body is. -/
theorem Literal.loopFree_function {c : Closure} :
    (Literal.function c).LoopFree ↔ Stmt.AllLoopFree c.body := by
  cases c
  rfl

/-- A function without loops that was declared in a frame of `R`, as were those that stand in its
body; or no function of a program. -/
def Val.LoopFreeIn (R : FrameId → Prop) : Val → Prop
  | .closure c => (Val.closure c).ScopedIn R ∧ Stmt.AllLoopFree c.body
  | _ => True

/-- No function that can be reached from the frame `s` has a loop in its body. -/
def Heap.ReachesNoLoop (h : Heap) (s : FrameId) : Prop :=
  ∀ f name c, h.Reaches s f → h.here? f name = some (.closure c) → Stmt.AllLoopFree c.body

/-- Only functions have loops. -/
theorem Val.loopFreeIn_of_not_closure {R : FrameId → Prop} {v : Val} (h : ∀ c, v ≠ .closure c) :
    v.LoopFreeIn R := by
  cases v with
  | closure c => exact absurd rfl (h c)
  | _ => trivial

/-- A literal without loops has a value without loops. -/
theorem Literal.loopFreeIn {R : FrameId → Prop} {value : Literal} (h : value.LoopFree)
    (hscopes : value.FunctionsAre (R ·.scope)) : (Val.ofLiteral value).LoopFreeIn R := by
  cases value with
  | function c =>
    exact ⟨Literal.functionsAre_function.mp hscopes, Literal.loopFree_function.mp h⟩
  | _ => trivial

/-- A function without loops is of a frame of the region. -/
theorem Val.LoopFreeIn.scopedIn {R : FrameId → Prop} {v : Val} (h : v.LoopFreeIn R) :
    v.ScopedIn R := by
  cases v with
  | closure c => exact h.1
  | _ => trivial

/-! ## Heaps without loops -/

/-- Nothing leads out of the frames of `R`, which hold no function with a loop in its body, and new
frames are among them. -/
structure Heap.LoopFreeIn (R : FrameId → Prop) (h : Heap) : Prop where
  above : ∀ f g, R f → h.above? f = some g → R g
  here : ∀ f name v, R f → h.here? f name = some v → v.LoopFreeIn R
  fresh : ∀ g, h.frames.size ≤ g → R g

namespace Heap

variable {R : FrameId → Prop} {h : Heap} {f : FrameId}

/-- The regions of some frames have no loops if none can be reached from there. -/
theorem loopFreeIn_regions {S : FrameId → Prop} (hS : ∀ s, S s → h.ReachesNoLoop s)
    (hroot : S root) : h.LoopFreeIn fun g => ∃ s, S s ∧ h.Region s g where
  above f g := by
    rintro ⟨s, hs, hf⟩ hg
    exact ⟨s, hs, (h.closedIn_region s).above f g hf hg⟩
  here g name v := by
    rintro ⟨s, hs, hg⟩ hv
    cases v with
    | closure c =>
      have hscoped := (h.closedIn_region s).here g name _ hg hv
      refine ⟨hscoped.mono fun f hf => ⟨s, hs, hf⟩, ?_⟩
      rcases hg with hreached | hnew
      · exact hS s hs g name c hreached hv
      · rw [here?_of_size_le hnew] at hv
        cases hv
    | _ => trivial
  fresh g hg := ⟨root, hroot, .inr hg⟩

section

variable (hh : h.LoopFreeIn R)
include hh

/-- The region is closed: its values do not lead out of it. -/
theorem LoopFreeIn.closedIn : h.ClosedIn R where
  above := hh.above
  here g name v hg hv := (hh.here g name v hg hv).scopedIn

/-- No loop can be reached from the frames of `R`. -/
theorem LoopFreeIn.reachesNoLoop {s : FrameId} (hs : R s) : h.ReachesNoLoop s :=
  fun g name _ hg hc => (hh.here g name _ (hh.closedIn.of_reaches hs hg) hc).2

/-- What can be read from the region has no loops. -/
theorem LoopFreeIn.get? (hf : R f) {name : String} {v : Val} (hv : h.get? f name = some v) :
    v.LoopFreeIn R := by
  obtain ⟨g, hg, hv⟩ := Option.bind_eq_some_iff.mp hv
  exact hh.here g name v (binder?_within hh.above hf hg) hv

/-- Only the value that is bound is new. -/
theorem LoopFreeIn.define (f : FrameId) (name : String) {v : Val} (hv : v.LoopFreeIn R) :
    (h.define f name v).LoopFreeIn R where
  above := (hh.closedIn.define f name hv.scopedIn).above
  here g other w hg hw := by
    rcases here?_define_cases hw with rfl | hbefore
    · exact hv
    · exact hh.here g other w hg hbefore
  fresh g hg := by
    rw [size_define] at hg
    exact hh.fresh g hg

/-- A function without loops is declared in the region. -/
theorem LoopFreeIn.declare (hf : R f) (name : String) (params : List String) {body : List Stmt}
    (hbody : Stmt.AllLoopFree body) (hscopes : Stmt.AllFunctionsAre (R ·.scope) body) :
    (h.declare f name params body).LoopFreeIn R := by
  have hcount : LoopFreeIn R { h with closures := h.closures + 1 } :=
    ⟨hh.above, hh.here, hh.fresh⟩
  exact hcount.define f name ⟨⟨hf, hscopes⟩, hbody⟩

/-- The new frame is of the region, as all numbers that no frame has are. -/
theorem LoopFreeIn.child (hf : R f) {bs : Bindings}
    (hbs : ∀ name v, bs.get? name = some v → v.LoopFreeIn R) : (h.child f bs).2.LoopFreeIn R where
  above := (hh.closedIn.child hf fun name v hv => (hbs name v hv).scopedIn).above
  here g name v hg hv := by
    rw [here?_child] at hv
    split at hv
    · exact hbs name v hv
    · exact hh.here g name v hg hv
  fresh g hg := by
    rw [size_child] at hg
    exact hh.fresh g (Nat.le_of_succ_le hg)

end

end Heap

/-! ## Parts of programs that end -/

/-- A run without loops has come to the state at the given depth of calls. -/
structure State.LoopFreeAt (R : FrameId → Prop) (depth : Nat) (st : State) : Prop where
  heap : st.heap.LoopFreeIn R
  depth_eq : st.depth = depth

/-- The outcome is an error, or a result with `P` at the given depth of calls; in either case the
heap is still without loops. That no function is left which was not entered is no matter here. -/
def Outcome.EndsAt {α : Type} (R : FrameId → Prop) (depth : Nat) (P : α → Prop) :
    Outcome α → Prop
  | .done a st => P a ∧ st.LoopFreeAt R depth
  | .failed _ st => st.heap.LoopFreeIn R
  | .unfinished => False
  | .crashed => True

/-- A promise that follows holds of the result as well. -/
theorem Outcome.EndsAt.mono {α : Type} {R : FrameId → Prop} {depth : Nat} {P P' : α → Prop}
    {o : Outcome α} (h : o.EndsAt R depth P) (hP : ∀ a, P a → P' a) : o.EndsAt R depth P' := by
  cases o with
  | done a st => exact ⟨hP a h.1, h.2⟩
  | failed e st => exact h
  | unfinished => exact h
  | crashed => trivial

/-- Where it ends, it leaves an answer and a heap without loops. -/
theorem Outcome.EndsAt.answer? {α : Type} {R : FrameId → Prop} {depth : Nat} {P : α → Prop}
    {o : Outcome α} (h : o.EndsAt R depth P) (hcrash : o ≠ .crashed) :
    ∃ answer st, o.answer? = some (answer, st) ∧ st.heap.LoopFreeIn R := by
  cases o with
  | done a st => exact ⟨_, st, rfl, h.2.heap⟩
  | failed e st => exact ⟨_, st, rfl, h⟩
  | unfinished => exact h.elim
  | crashed => exact absurd rfl hcrash

section

variable {R : FrameId → Prop} {depth : Nat} {f : FrameId} {α β : Type}

namespace Eval

/-- From any state at the one depth of calls the part of a program ends: with an error, or with a
result that has `P` at the other. -/
def EndsFrom (R : FrameId → Prop) (depth next : Nat) (m : Eval α) (P : α → Prop) : Prop :=
  ∀ st, st.LoopFreeAt R depth → (m st).EndsAt R next P

/-- The part of a program ends at the depth of calls at which it begins. -/
abbrev EndsAt (R : FrameId → Prop) (depth : Nat) (m : Eval α) (P : α → Prop) : Prop :=
  m.EndsFrom R depth depth P

/-- A result alone ends where it begins. -/
theorem EndsAt.pure {P : α → Prop} {a : α} (h : P a) : (Pure.pure a : Eval α).EndsAt R depth P :=
  fun _ hst => ⟨h, hst⟩

/-- An error ends, at any depth. -/
theorem EndsAt.fail {P : α → Prop} (e : EvalError) : (Eval.fail e : Eval α).EndsAt R depth P :=
  fun _ hst => hst.heap

/-- The second part begins at the depth at which the first has ended. -/
theorem EndsFrom.bind {next last : Nat} {m : Eval α} {rest : α → Eval β} {P : α → Prop}
    {P' : β → Prop} (hm : m.EndsFrom R depth next P)
    (hrest : ∀ a, P a → (rest a).EndsFrom R next last P') :
    (m >>= rest).EndsFrom R depth last P' := by
  intro st hst
  have h := hm st hst
  rw [bind_apply]
  cases hr : m st with
  | done a mid =>
    rw [hr] at h
    exact hrest a h.1 mid h.2
  | failed e mid =>
    rw [hr] at h
    exact h
  | unfinished =>
    rw [hr] at h
    exact h
  | crashed => trivial

/-- Going on with a result that was computed from another. -/
theorem EndsFrom.map {next : Nat} {m : Eval α} {g : α → β} {P : α → Prop} {P' : β → Prop}
    (hm : m.EndsFrom R depth next P) (hg : ∀ a, P a → P' (g a)) :
    (m >>= fun a => Pure.pure (g a)).EndsFrom R depth next P' :=
  hm.bind fun a ha => EndsAt.pure (hg a ha)

end Eval

/-! ### The effects -/

/-- Reading ends with a value without loops, or with an unknown name. -/
theorem readName_ends (hf : R f) (pos : Position) (name : String) :
    (Eval.readName f pos name).EndsAt R depth (Val.LoopFreeIn R) := by
  intro st hst
  unfold Eval.readName
  cases hv : st.heap.get? f name with
  | none => exact hst.heap
  | some v => exact ⟨hst.heap.get? hf hv, hst⟩

/-- Writing ends. -/
theorem writeName_ends (f : FrameId) (name : String) {v : Val} (hv : v.LoopFreeIn R) :
    (Eval.writeName f name v).EndsAt R depth fun _ => True := by
  intro st hst
  refine ⟨trivial, ?_, hst.depth_eq⟩
  show (st.heap.bind f name v).LoopFreeIn R
  rw [Heap.bind_eq]
  exact hst.heap.define _ name hv

/-- So does declaring a function. -/
theorem declare_ends (hf : R f) (name : String) (params : List String) {body : List Stmt}
    (hbody : Stmt.AllLoopFree body) (hscopes : Stmt.AllFunctionsAre (R ·.scope) body) :
    (Eval.declare f name params body).EndsAt R depth fun _ => True :=
  fun _ hst => ⟨trivial, hst.heap.declare hf name params hbody hscopes, hst.depth_eq⟩

/-- So does making a frame, which is of the region. -/
theorem newFrame_ends (hf : R f) {bs : Bindings}
    (hbs : ∀ name v, bs.get? name = some v → v.LoopFreeIn R) :
    (Eval.newFrame f bs).EndsAt R depth R :=
  fun st hst => ⟨hst.heap.fresh st.heap.frames.size (Nat.le_refl _), hst.heap.child hf hbs,
    hst.depth_eq⟩

/-- So does printing, with an error if the sink is full. -/
theorem printLine_ends (text : String) :
    (Eval.printLine text).EndsAt R depth fun _ => True := by
  intro st hst
  unfold Eval.printLine
  rcases st.sink.writeLine text with ⟨_ | cause, sink⟩
  · exact ⟨trivial, hst.heap, hst.depth_eq⟩
  · exact hst.heap

/-- So does a step, with an error if the limit is reached. -/
theorem step_ends (pos : Position) : (Eval.step pos).EndsAt R depth fun _ => True := by
  intro st hst
  unfold Eval.step
  cases st.limit? with
  | none => exact ⟨trivial, hst.heap, hst.depth_eq⟩
  | some limit =>
    dsimp only
    split
    · exact hst.heap
    · exact ⟨trivial, hst.heap, hst.depth_eq⟩

/-- A call is entered only if there is a level left. -/
theorem enterCall_ends (pos : Position) :
    (Eval.enterCall pos).EndsFrom R depth (depth + 1) fun _ => depth < maxCallDepth := by
  intro st hst
  unfold Eval.enterCall
  split
  · exact hst.heap
  · next hallowed =>
    rw [hst.depth_eq] at hallowed
    have hentered : State.LoopFreeAt R (depth + 1) { st with depth := st.depth + 1 } :=
      ⟨hst.heap, congrArg (· + 1) hst.depth_eq⟩
    exact (step_ends pos _ hentered).mono fun _ _ => Nat.lt_of_not_le hallowed

/-- The level of a call is given back when it is left. -/
theorem thenLeave_ends {m : Eval α} {P : α → Prop} (hm : m.EndsAt R (depth + 1) P) :
    (Eval.alwaysThen m Eval.leaveCall).EndsFrom R (depth + 1) depth P := by
  intro st hst
  have h := hm st hst
  rw [Eval.alwaysThen_leaveCall]
  cases hr : m st with
  | done a out =>
    rw [hr] at h
    have hout : out.depth = depth + 1 := h.2.depth_eq
    simp only [Outcome.leave, hout, if_neg (Nat.succ_ne_zero depth), Nat.add_sub_cancel]
    exact ⟨h.1, h.2.heap, rfl⟩
  | failed e out =>
    rw [hr] at h
    rw [Outcome.leave]
    split
    · trivial
    · exact h
  | unfinished =>
    rw [hr] at h
    exact h
  | crashed => trivial

/-- What is inside a call ends one level further down, if there is one left. -/
theorem insideCall_ends {m : Eval α} {P : α → Prop}
    (hm : depth < maxCallDepth → m.EndsAt R (depth + 1) P) (pos : Position) :
    (Eval.insideCall pos m).EndsAt R depth P := by
  exact (enterCall_ends pos).bind fun _ hallowed => thenLeave_ends (hm hallowed)

/-! ### Expressions -/

/-- Calls that are made at the given depth end, if neither the function nor those among its
arguments have loops. -/
def CallRule.EndsAt (R : FrameId → Prop) (depth : Nat) (call : CallRule) : Prop :=
  ∀ (c : Closure) (args : List Val) (pos : Position), (Val.closure c).LoopFreeIn R →
    (∀ v ∈ args, v.LoopFreeIn R) → (call c args pos).EndsAt R depth (Val.LoopFreeIn R)

/-- An operator gives no function. -/
theorem operator_ends {pos : Position} {op : Token.Kind} {types : List ValType}
    {x : Except EvalError Val} (h : OperatorAnswer pos op types x) :
    (Eval.ofExcept x).EndsAt R depth (Val.LoopFreeIn R) := by
  cases x with
  | ok v =>
    refine Eval.EndsAt.pure (Val.loopFreeIn_of_not_closure fun c hc => h ?_)
    rw [hc, Val.type]
  | error e => exact Eval.EndsAt.fail e

/-- Nor does a builtin. -/
theorem Builtin.call_ends (b : Builtin) (args : List Val) (pos : Position) :
    (b.call args pos).EndsAt R depth (Val.LoopFreeIn R) := by
  unfold Builtin.call
  split
  · exact (printLine_ends _).map fun _ _ => trivial
  · exact Eval.EndsAt.fail _

mutual

/-- An expression ends if the calls in it do. -/
theorem Expr.eval_ends {call : CallRule} (hcall : call.EndsAt R depth) (hf : R f) :
    ∀ e : Expr, e.LoopFree → e.FunctionsAre (R ·.scope) →
      (e.eval call f).EndsAt R depth (Val.LoopFreeIn R)
  | .literal _ value, h, hscopes => by
    rw [Expr.eval]
    exact Eval.EndsAt.pure (Literal.loopFreeIn h hscopes)
  | .var pos name, _, _ => by
    rw [Expr.eval]
    exact readName_ends hf pos name
  | .unary pos op operand, h, hscopes => by
    rw [Expr.eval]
    apply (Expr.eval_ends hcall hf operand h hscopes).bind
    intro x _
    exact operator_ends (unaryValue_answer pos op x)
  | .binary pos op left right, h, hscopes => by
    rw [Expr.eval]
    have hright := Expr.eval_ends hcall hf right h.2 hscopes.2
    apply (Expr.eval_ends hcall hf left h.1 hscopes.1).bind
    intro l _
    split
    · split
      · exact Eval.EndsAt.pure trivial
      · exact hright.map fun r _ => trivial
    · split
      · split
        · exact hright.map fun r _ => trivial
        · exact Eval.EndsAt.pure trivial
      · exact hright.bind fun r _ => operator_ends (binaryValue_answer pos op l r)
  | .call pos callee args, h, hscopes => by
    rw [Expr.eval]
    have hargs := Expr.evalAll_ends hcall hf args h.2 hscopes.2
    apply (Expr.eval_ends hcall hf callee h.1 hscopes.1).bind
    intro v hv
    split
    · next c =>
      split
      · exact hargs.bind fun values hvalues => hcall c values pos hv hvalues
      · exact Eval.EndsAt.fail _
    · next b => exact hargs.bind fun values _ => b.call_ends values pos
    · exact Eval.EndsAt.fail _

/-- The arguments of a call end one after the other. -/
theorem Expr.evalAll_ends {call : CallRule} (hcall : call.EndsAt R depth) (hf : R f) :
    ∀ es : List Expr, Expr.AllLoopFree es → Expr.AllFunctionsAre (R ·.scope) es →
      (Expr.evalAll call f es).EndsAt R depth fun vs => ∀ v ∈ vs, v.LoopFreeIn R
  | [], _, _ => by
    rw [Expr.evalAll]
    exact Eval.EndsAt.pure (by simp)
  | e :: rest, h, hscopes => by
    rw [Expr.evalAll]
    apply (Expr.eval_ends hcall hf e h.1 hscopes.1).bind
    intro v hv
    refine (Expr.evalAll_ends hcall hf rest h.2 hscopes.2).map fun vs hvs => ?_
    exact List.forall_mem_cons.mpr ⟨hv, hvs⟩

end

/-! ### Statements -/

mutual

/-- A statement without loops ends if the calls in it do. Loops may do anything. -/
theorem Stmt.exec_ends {call : CallRule} (hcall : call.EndsAt R depth) (loop : LoopRule)
    {f : FrameId} (hf : R f) :
    ∀ s : Stmt, s.LoopFree → s.FunctionsAre (R ·.scope) →
      (s.exec call loop f).EndsAt R depth (Flow.Carries (Val.LoopFreeIn R))
  | .expr e, h, hscopes => by
    rw [Stmt.exec]
    exact (Expr.eval_ends hcall hf e h hscopes).map fun _ _ => trivial
  | .assign name value, h, hscopes => by
    rw [Stmt.exec]
    apply (Expr.eval_ends hcall hf value h hscopes).bind
    intro v hv
    exact (writeName_ends f name hv).map fun _ _ => trivial
  | .block body, h, hscopes => by
    rw [Stmt.exec]
    have hframe : (Eval.newFrame f []).EndsAt R depth R :=
      newFrame_ends hf fun _ _ hv => by cases hv
    exact hframe.bind fun frame hnew => Stmt.execAll_ends hcall loop hnew body h hscopes
  | .ifThen condition body, h, hscopes => by
    rw [Stmt.exec]
    apply (Expr.eval_ends hcall hf condition h.1 hscopes.1).bind
    intro v _
    split
    · exact Stmt.exec_ends hcall loop hf body h.2 hscopes.2
    · exact Eval.EndsAt.pure trivial
  | .breakLoop, _, _ => by
    rw [Stmt.exec]
    exact Eval.EndsAt.pure trivial
  | .continueLoop, _, _ => by
    rw [Stmt.exec]
    exact Eval.EndsAt.pure trivial
  | .returnValue none, _, _ => by
    rw [Stmt.exec]
    exact Eval.EndsAt.pure trivial
  | .returnValue (some value), h, hscopes => by
    rw [Stmt.exec]
    exact (Expr.eval_ends hcall hf value h hscopes).map fun _ hv => hv
  | .function name params body, h, hscopes => by
    rw [Stmt.exec]
    exact (declare_ends hf name params h hscopes).map fun _ _ => trivial

/-- So do the statements of a list, by induction. -/
theorem Stmt.execAll_ends {call : CallRule} (hcall : call.EndsAt R depth) (loop : LoopRule)
    {f : FrameId} (hf : R f) :
    ∀ body : List Stmt, Stmt.AllLoopFree body → Stmt.AllFunctionsAre (R ·.scope) body →
      (Stmt.execAll call loop f body).EndsAt R depth (Flow.Carries (Val.LoopFreeIn R))
  | [], _, _ => by
    rw [Stmt.execAll]
    exact Eval.EndsAt.pure trivial
  | s :: rest, h, hscopes => by
    rw [Stmt.execAll]
    apply (Stmt.exec_ends hcall loop hf s h.1 hscopes.1).bind
    intro flow hflow
    split
    · exact Stmt.execAll_ends hcall loop hf rest h.2 hscopes.2
    · exact Eval.EndsAt.pure hflow

end

/-! ### Calls -/

/-- What a body ends with is taken for the value of the call. -/
theorem Flow.callResult_ends {flow : Flow} (h : flow.Carries (Val.LoopFreeIn R)) :
    flow.callResult.EndsAt R depth (Val.LoopFreeIn R) := by
  cases flow with
  | normal => exact Eval.EndsAt.pure trivial
  | breaking => exact Eval.EndsAt.fail _
  | continuing => exact Eval.EndsAt.fail _
  | returning v => exact Eval.EndsAt.pure h

/-- **Recursion ends.** Calls at some depth end, with more fuel than there are levels left. -/
theorem callWithin_ends {fuel : Nat} (hdepth : depth ≤ maxCallDepth)
    (hfuel : maxCallDepth < depth + fuel) : (callWithin fuel).EndsAt R depth := by
  -- the body comes from the heap and is no part of the call, so it is the levels that get fewer
  induction fuel generalizing depth with
  | zero => omega
  | succ fuel ih =>
    intro c args pos hc hargs
    have hbound : ∀ name v, (Bindings.ofArguments c.params args).get? name = some v →
        v.LoopFreeIn R := fun name v hv => hargs v (Bindings.get?_ofArguments_mem hv)
    rw [callWithin]
    refine insideCall_ends (fun hallowed => ?_) pos
    have hcall : (callWithin fuel).EndsAt R (depth + 1) := ih hallowed (by omega)
    apply (newFrame_ends hc.1.1 hbound).bind
    intro frame hframe
    apply (Stmt.execAll_ends hcall (loopWithin fuel) hframe c.body hc.2 hc.1.2).bind
    intro flow hflow
    exact Flow.callResult_ends hflow

/-! ## Programs -/

/-- A program without loops ends in the root frame if calls do. -/
theorem runProgram_endsAt {fuel : Nat} (hroot : R Heap.root)
    (hcall : (callWithin fuel).EndsAt R depth) {program : List Stmt}
    (hprogram : Stmt.AllLoopFree program) (hscopes : Stmt.AllFunctionsAre (R ·.scope) program) :
    (runProgram fuel program).EndsAt R depth fun _ => True := by
  induction program with
  | nil =>
    rw [runProgram]
    exact Eval.EndsAt.pure trivial
  | cons s rest ih =>
    rcases runProgram_cons fuel s rest with ⟨e, rfl, rfl⟩ | heq
    · rw [runProgram]
      exact (Expr.eval_ends hcall hroot e hprogram.1 hscopes.1).map fun _ _ => trivial
    · rw [heq]
      apply (Stmt.exec_ends hcall (loopWithin fuel) hroot s hprogram.1 hscopes.1).bind
      intro flow _
      cases flow with
      | normal => exact ih hprogram.2 hscopes.2
      | breaking => exact Eval.EndsAt.fail _
      | continuing => exact Eval.EndsAt.fail _
      | returning v => exact Eval.EndsAt.fail _

end

/-- A program that ends is executed with the same answer and in the same number of steps with more
fuel, too. -/
theorem Interpreter.executeWithin_beyond {it : Interpreter} {fuel : Nat} {program : List Stmt}
    {answer : Except EvalError (Option Val)} {st : State}
    (h : (runProgram fuel program it.start).answer? = some (answer, st)) (more : Nat) :
    it.executeWithin (fuel + more) program =
        some (st.sink.answerAfterFlush answer, it.resume st) ∧
      it.charged? (fuel + more) program = some st.steps := by
  have hends : runProgram fuel program it.start ≠ .unfinished := by
    intro hnot
    rw [hnot] at h
    cases h
  have hmore := runProgram_extended fuel more program _ hends
  rw [executeWithin_eq, charged?, hmore, h, Outcome.state?_of_answer? h]
  exact ⟨rfl, rfl⟩

/-- Where no loop can be reached from the root, nor from where the functions in its values were
declared, a program without loops ends, and no loop can be reached from the root afterwards. -/
theorem Interpreter.executeWithin_ends {it : Interpreter}
    (hloops : it.heap.ReachesNoLoop Heap.root) {program : List Stmt}
    (hprogram : Stmt.AllLoopFree program)
    (hbrought : ∀ c ∈ Stmt.allFunctionsIn program, it.heap.ReachesNoLoop c.scope) :
    ∃ answer after steps, after.heap.ReachesNoLoop Heap.root ∧ ∀ more,
      it.executeWithin (maxCallDepth + 1 + more) program = some (answer, after) ∧
      it.charged? (maxCallDepth + 1 + more) program = some steps := by
  let S (s : FrameId) : Prop := s = Heap.root ∨ ∃ c ∈ Stmt.allFunctionsIn program, s = c.scope
  let R (g : FrameId) : Prop := ∃ s, S s ∧ it.heap.Region s g
  have hS (s : FrameId) (hs : S s) : it.heap.ReachesNoLoop s := by
    rcases hs with rfl | ⟨c, hc, rfl⟩
    · exact hloops
    · exact hbrought c hc
  have hroot : R Heap.root := ⟨_, .inl rfl, .inl .self⟩
  have hscopes : Stmt.AllFunctionsAre (R ·.scope) program :=
    (Stmt.allFunctionsAre_iff program).mpr fun c hc => ⟨_, .inr ⟨c, hc, rfl⟩, .inl .self⟩
  have hcall : (callWithin (maxCallDepth + 1)).EndsAt R 0 :=
    callWithin_ends (Nat.zero_le _) (by omega)
  have hstart : it.start.LoopFreeAt R 0 := ⟨Heap.loopFreeIn_regions hS (.inl rfl), rfl⟩
  obtain ⟨answer, st, hanswer, hheap⟩ :=
    (runProgram_endsAt hroot hcall hprogram hscopes _ hstart).answer?
      ((runProgram_built _ _).ne_crashed _)
  exact ⟨_, it.resume st, _, hheap.reachesNoLoop hroot, executeWithin_beyond hanswer⟩

/-- **Only loops run forever.** From an interpreter where no loop can be reached from the root, a
program without loops ends with a value or an error, whatever recursion there is and whether or not
there is a step limit: it does within fuel for one call more than may be running inside each other,
and with the same answer and in the same number of steps within any more. If functions stand in it
as values, this takes that no loop can be reached from where they were declared, either. Afterwards
no loop can be reached from the root, so the same is true of the next program. A text ends if it
writes a program without loops, or none. -/
theorem only_loops_run_forever (it : Interpreter) (hloops : it.heap.ReachesNoLoop Heap.root) :
    (∀ program, Stmt.AllLoopFree program →
      (∀ c ∈ Stmt.allFunctionsIn program, it.heap.ReachesNoLoop c.scope) → ∃ answer after steps,
      after.heap.ReachesNoLoop Heap.root ∧ ∀ more,
        it.executeWithin (maxCallDepth + 1 + more) program = some (answer, after) ∧
        it.charged? (maxCallDepth + 1 + more) program = some steps) ∧
    ∀ code, (∀ program, readProgram code = .ok program → Stmt.AllLoopFree program) →
      ∃ answer after, after.heap.ReachesNoLoop Heap.root ∧ ∀ more,
        it.runWithin (maxCallDepth + 1 + more) code = some (answer, after) := by
  refine ⟨fun program => Interpreter.executeWithin_ends hloops, fun code hcode => ?_⟩
  have hnone (program : List Stmt) (h : readProgram code = .ok program) :
      ∀ c ∈ Stmt.allFunctionsIn program, it.heap.ReachesNoLoop c.scope := by
    obtain ⟨tokens, -, hparse⟩ := readProgram_eq_ok.mp h
    exact (Stmt.allFunctionsAre_iff program).mp (parse_functionsAre hparse)
  cases hread : readProgram code with
  | error e => exact ⟨_, it, hloops, fun more => Interpreter.runWithin_of_error hread _ it⟩
  | ok program =>
    obtain ⟨answer, after, steps, hafter, hends⟩ :=
      Interpreter.executeWithin_ends hloops (hcode program hread) (hnone program hread)
    refine ⟨answer.mapError .eval, after, hafter, fun more => ?_⟩
    rw [Interpreter.runWithin_of_ok hread, (hends more).1]
    rfl

/-- A function that calls itself without end, under no step limit. -/
theorem only_loops_run_forever_of_runaway_recursion :
    let again : Expr := .call ⟨1, 18⟩ (.var ⟨1, 18⟩ "f")
      [.binary ⟨1, 22⟩ (.symbol .plus) (.var ⟨1, 20⟩ "n") (.literal ⟨1, 24⟩ (.int 1))]
    let f : Closure := ⟨0, "f", ["n"], [.returnValue (some again)], Heap.root⟩
    let it := (Interpreter.new .unlimited none).defineGlobal "f" (.closure f)
    it.heap.ReachesNoLoop Heap.root ∧ ∃ answer after, ∀ more,
      it.runWithin (maxCallDepth + 1 + more) "f(0)" = some (answer, after) := by
  intro again f it
  have hloops : it.heap.ReachesNoLoop Heap.root := by
    intro g name c _ hc
    rcases Heap.here?_define_cases hc with hf | hnone
    · cases hf
      exact ⟨⟨trivial, ⟨trivial, trivial⟩, trivial⟩, trivial⟩
    · cases (Heap.here?_initial g name).symm.trans hnone
  have hread : readProgram "f(0)" =
      .ok [.expr (.call ⟨1, 1⟩ (.var ⟨1, 1⟩ "f") [.literal ⟨1, 3⟩ (.int 0)])] := by
    have htokens : tokenize "f(0)" = .ok [⟨.identifier "f", "f", ⟨1, 1⟩⟩,
      ⟨.symbol .leftParen, "(", ⟨1, 2⟩⟩, ⟨.integer 0, "0", ⟨1, 3⟩⟩,
      ⟨.symbol .rightParen, ")", ⟨1, 4⟩⟩] := by decide +kernel
    exact readProgram_eq_ok.mpr ⟨_, htokens, rfl⟩
  have hcode (program : List Stmt) (h : readProgram "f(0)" = .ok program) :
      Stmt.AllLoopFree program := by
    cases hread.symm.trans h
    exact ⟨⟨trivial, trivial, trivial⟩, trivial⟩
  obtain ⟨answer, after, -, hends⟩ := (only_loops_run_forever it hloops).2 "f(0)" hcode
  exact ⟨hloops, answer, after, hends⟩

end TwinScript
