import TwinScript.Proofs.Eval.Effects
import TwinScript.Proofs.Value.Renaming

/-!
# Runs up to the numbers of frames

No program can tell what number a frame has. Executed in frames that are paired, in heaps that are
paired, it does the same: it prints the same, fails in the same way at the same place or ends in the
same way with values that are paired, and leaves heaps that are paired again. The pairing grows on
the way, since the frames that the two runs make are paired, too. Frames that are there in the
second heap only, such as those of `out` here, make no difference.

`Eval.Renamed` says so of two parts of programs and composes along `do`, like `Eval.Like` for
programs that differ in their positions.

* `Expr.eval_renamed`, `Stmt.exec_renamed`: trees run alike, if calls and loops do.
* `rules_renamed`: calls and loops do, whatever the fuel.
* `Stmt.execWithin_linked`, `runProgram_linked`: a linked heap, paired with itself, is left linked.
-/

namespace TwinScript

section

variable (out : FrameId → Prop) (ρ : Pairing) {α β : Type}

/-- The states differ in the numbers of frames only, in frames of the second that are not paired,
such as those of `out`, and in the steps charged if there is no limit. -/
structure State.Renamed (st st' : State) : Prop where
  heap : st.heap.Renamed ρ st'.heap
  left_out : ∀ {f g}, ρ f g → ¬ out g
  out_lt : ∀ {g}, out g → g < st'.heap.frames.size
  sink_eq : st.sink = st'.sink
  limit?_eq : st.limit? = st'.limit?
  steps_eq : st.limit? = none ∨ st.steps = st'.steps
  depth_eq : st.depth = st'.depth

/-- The outcomes are results related by `P` or the same error, under a pairing that may have more
pairs, which `P` is told. -/
inductive Outcome.Renamed (P : Pairing → α → β → Prop) : Outcome α → Outcome β → Prop
  | done {ρ' : Pairing} {a : α} {b : β} {st st' : State} (hρ : Subrelation ρ ρ')
      (hst : st.Renamed out ρ' st') (hab : P ρ' a b) :
      Outcome.Renamed P (.done a st) (.done b st')
  | failed {ρ' : Pairing} {e : EvalError} {st st' : State} (hρ : Subrelation ρ ρ')
      (hst : st.Renamed out ρ' st') : Outcome.Renamed P (.failed e st) (.failed e st')
  | unfinished : Outcome.Renamed P .unfinished .unfinished
  | crashed : Outcome.Renamed P .crashed .crashed

/-- From states that are paired, both parts of a program have outcomes that are paired. -/
def Eval.Renamed (P : Pairing → α → β → Prop) (m : Eval α) (m' : Eval β) : Prop :=
  ∀ st st', st.Renamed out ρ st' → (m st).Renamed out ρ P (m' st')

/-- The ends of statements are the same, with values that are paired if they have any. -/
inductive Flow.Renamed : Flow → Flow → Prop
  | normal : Flow.Renamed .normal .normal
  | breaking : Flow.Renamed .breaking .breaking
  | continuing : Flow.Renamed .continuing .continuing
  | returning {v v' : Val} (h : v.Renamed ρ v') : Flow.Renamed (.returning v) (.returning v')

end

/-- Functions that are paired are called in the same way, under every pairing. -/
def CallRule.Renamed (out : FrameId → Prop) (call : CallRule) : Prop :=
  ∀ {ρ : Pairing} {c c' : Closure} {args args' : List Val} (pos : Position), c.Renamed ρ c' →
    List.Forall₂ (Val.Renamed ρ) args args' →
      (call c args pos).Renamed out ρ Val.Renamed (call c' args' pos)

/-- Loops run in the same way in frames that are paired, under every pairing. -/
def LoopRule.Renamed (out : FrameId → Prop) (loop : LoopRule) : Prop :=
  ∀ {ρ : Pairing} {f g : FrameId} (pos : Position) (condition : Option Expr) (body : Stmt),
    ρ f g → (Stmt.forLoop pos condition body).FunctionsAre ρ.Fixes →
      (loop f pos condition body).Renamed out ρ Flow.Renamed (loop g pos condition body)

variable {out : FrameId → Prop} {ρ : Pairing} {f g : FrameId}

/-- Fewer frames have to be left out. -/
theorem State.Renamed.mono {out' : FrameId → Prop} (hout : ∀ g, out' g → out g) {st st' : State}
    (h : st.Renamed out ρ st') : st.Renamed out' ρ st' where
  heap := h.heap
  left_out hfg hg := h.left_out hfg (hout _ hg)
  out_lt hg := h.out_lt (hout _ hg)
  sink_eq := h.sink_eq
  limit?_eq := h.limit?_eq
  steps_eq := h.steps_eq
  depth_eq := h.depth_eq

/-- The pairing that has grown may be an earlier one. -/
theorem Outcome.Renamed.of_later {α β : Type} {P : Pairing → α → β → Prop} {ρ' : Pairing}
    (hρ : Subrelation ρ ρ') {o : Outcome α} {o' : Outcome β} (h : o.Renamed out ρ' P o') :
    o.Renamed out ρ P o' := by
  cases h with
  | done hρ' hst hab => exact .done (fun h => hρ' (hρ h)) hst hab
  | failed hρ' hst => exact .failed (fun h => hρ' (hρ h)) hst
  | unfinished => exact .unfinished
  | crashed => exact .crashed

/-- Only the heaps of the two states are replaced. -/
theorem State.Renamed.with_heap {st st' : State} (hst : st.Renamed out ρ st') {h h' : Heap}
    (hh : h.Renamed ρ h') (hsize : st'.heap.frames.size ≤ h'.frames.size) :
    State.Renamed out ρ { st with heap := h } { st' with heap := h' } where
  heap := hh
  left_out := hst.left_out
  out_lt hg := Nat.lt_of_lt_of_le (hst.out_lt hg) hsize
  sink_eq := hst.sink_eq
  limit?_eq := hst.limit?_eq
  steps_eq := hst.steps_eq
  depth_eq := hst.depth_eq

namespace Eval

variable {α β γ δ : Type} {P : Pairing → α → β → Prop} {P' : Pairing → γ → δ → Prop}

/-- Results that are paired are given at once. -/
theorem Renamed.pure {a : α} {b : β} (h : P ρ a b) :
    (Pure.pure a : Eval α).Renamed out ρ P (Pure.pure b : Eval β) :=
  fun _ _ hst => .done id hst h

/-- The same error ends both parts. -/
theorem Renamed.fail (e : EvalError) :
    (Eval.fail e : Eval α).Renamed out ρ P (Eval.fail e : Eval β) :=
  fun _ _ hst => .failed id hst

/-- Sequencing, from two states. What comes second may be told that fewer frames are left out. -/
theorem renamed_bind_at {out' : FrameId → Prop} (hout : ∀ g, out' g → out g) {m : Eval α}
    {m' : Eval β} {next : α → Eval γ} {next' : β → Eval δ} {st st' : State}
    (hm : (m st).Renamed out ρ P (m' st'))
    (hnext : ∀ ρ' a b mid mid', m st = .done a mid → m' st' = .done b mid' → Subrelation ρ ρ' →
      mid.Renamed out ρ' mid' → P ρ' a b → (next a mid).Renamed out' ρ' P' (next' b mid')) :
    ((m >>= next) st).Renamed out' ρ P' ((m' >>= next') st') := by
  rw [bind_apply, bind_apply]
  generalize m st = o at hm hnext ⊢
  generalize m' st' = o' at hm hnext ⊢
  cases hm with
  | done hρ hst hab => exact (hnext _ _ _ _ _ rfl rfl hρ hst hab).of_later hρ
  | failed hρ hst => exact .failed hρ (hst.mono hout)
  | unfinished => exact .unfinished
  | crashed => exact .crashed

/-- The second parts go on with the pairs that the first have made, and with those from before. -/
theorem Renamed.bind {m : Eval α} {m' : Eval β} {next : α → Eval γ} {next' : β → Eval δ}
    (hm : m.Renamed out ρ P m')
    (hnext : ∀ ρ' a b, Subrelation ρ ρ' → P ρ' a b → (next a).Renamed out ρ' P' (next' b)) :
    (m >>= next).Renamed out ρ P' (m' >>= next') :=
  fun st st' hst => renamed_bind_at (fun _ => id) (hm st st' hst)
    fun ρ' a b mid mid' _ _ hρ hmid hab => hnext ρ' a b hρ hab mid mid' hmid

/-- Going on with results that were computed from others. -/
theorem Renamed.map {m : Eval α} {m' : Eval β} (hm : m.Renamed out ρ P m') {r : α → γ} {r' : β → δ}
    (hr : ∀ ρ' a b, P ρ' a b → P' ρ' (r a) (r' b)) :
    (m >>= fun a => Pure.pure (r a)).Renamed out ρ P' (m' >>= fun b => Pure.pure (r' b)) :=
  hm.bind fun ρ' a b _ hab => .pure (hr ρ' a b hab)

/-! ## The effects -/

/-- An operator answers the same, and never with a function. -/
theorem renamed_operator {pos : Position} {op : Token.Kind} {types : List ValType}
    {x : Except EvalError Val} (h : OperatorAnswer pos op types x) :
    (Eval.ofExcept x).Renamed out ρ Val.Renamed (Eval.ofExcept x) := by
  cases x with
  | ok v => exact .pure (Val.renamed_of_type h)
  | error e => exact .fail e

/-- Steps are counted alike. -/
theorem step_renamed (pos : Position) :
    (Eval.step pos).Renamed out ρ (fun _ => Eq) (Eval.step pos) := by
  rintro ⟨heap, sink, steps, limit?, depth⟩ ⟨heap', sink', steps', limit?', depth'⟩
    ⟨hheap, hleft, hlt, hsink, hlimit, hsteps, hdepth⟩
  dsimp only at hsink hlimit hsteps hdepth
  subst hsink hlimit hdepth
  unfold Eval.step
  cases limit? with
  | none => exact .done id ⟨hheap, hleft, hlt, rfl, rfl, .inl rfl, rfl⟩ rfl
  | some limit =>
    obtain rfl : steps = steps' := hsteps.resolve_left (by simp)
    dsimp only
    split
    · exact .failed id ⟨hheap, hleft, hlt, rfl, rfl, .inr rfl, rfl⟩
    · exact .done id ⟨hheap, hleft, hlt, rfl, rfl, .inr rfl, rfl⟩ rfl

/-- Calls are counted alike. -/
theorem enterCall_renamed (pos : Position) :
    (Eval.enterCall pos).Renamed out ρ (fun _ => Eq) (Eval.enterCall pos) := by
  intro st st' hst
  unfold Eval.enterCall
  rw [← hst.depth_eq]
  split
  · exact .failed id hst
  · exact step_renamed pos _ _ { hst with depth_eq := rfl }

/-- They are left alike. -/
theorem leaveCall_renamed : Eval.leaveCall.Renamed out ρ (fun _ => Eq) Eval.leaveCall := by
  rintro ⟨heap, sink, steps, limit?, depth⟩ ⟨heap', sink', steps', limit?', _⟩
    ⟨hheap, hleft, hlt, hsink, hlimit, hsteps, rfl⟩
  unfold Eval.leaveCall
  cases depth with
  | zero => exact .crashed
  | succ depth => exact .done id ⟨hheap, hleft, hlt, hsink, hlimit, hsteps, rfl⟩ rfl

/-- The same is done behind both, also if they fail. -/
theorem Renamed.alwaysThen {m : Eval α} {m' : Eval β} {last last' : Eval Unit}
    (hm : m.Renamed out ρ P m')
    (hlast : ∀ ρ', Subrelation ρ ρ' → last.Renamed out ρ' (fun _ => Eq) last')
    (hP : ∀ {ρ ρ' a b}, Subrelation ρ ρ' → P ρ a b → P ρ' a b) :
    (alwaysThen m last).Renamed out ρ P (alwaysThen m' last') := by
  intro st st' hst
  have h := hm st st' hst
  unfold Eval.alwaysThen
  generalize m st = o at h ⊢
  generalize m' st' = o' at h ⊢
  cases h with
  | done hρ hst hab =>
    exact ((hlast _ hρ).bind (fun _ _ _ hρ' _ => .pure (hP hρ' hab)) _ _ hst).of_later hρ
  | failed hρ hst => exact ((hlast _ hρ).bind (fun _ _ _ _ _ => .fail _) _ _ hst).of_later hρ
  | unfinished => exact .unfinished
  | crashed => exact .crashed

/-- So two calls are paired as their bodies are. -/
theorem insideCall_renamed (pos : Position) {m : Eval α} {m' : Eval β}
    (hm : ∀ ρ', Subrelation ρ ρ' → m.Renamed out ρ' P m') (hP : ∀ {ρ ρ' a b}, Subrelation ρ ρ' →
      P ρ a b → P ρ' a b) :
    (Eval.insideCall pos m).Renamed out ρ P (Eval.insideCall pos m') :=
  (enterCall_renamed pos).bind fun ρ' _ _ hρ _ =>
    (hm ρ' hρ).alwaysThen (fun _ _ => leaveCall_renamed) hP

/-- A name means values that are paired, or is unknown to both. -/
theorem readName_renamed (hfg : ρ f g) (pos : Position) (name : String) :
    (Eval.readName f pos name).Renamed out ρ Val.Renamed (Eval.readName g pos name) := by
  intro st st' hst
  have hv := hst.heap.get? hfg name
  unfold Eval.readName
  generalize st.heap.get? f name = v? at hv ⊢
  generalize st'.heap.get? g name = v?' at hv ⊢
  cases hv with
  | none => exact .failed id hst
  | some hv => exact .done id hst hv

/-- Values that are paired are written to frames that are. -/
theorem writeName_renamed (hfg : ρ f g) (name : String) {v v' : Val} (hv : v.Renamed ρ v') :
    (Eval.writeName f name v).Renamed out ρ (fun _ => Eq) (Eval.writeName g name v') := by
  intro st st' hst
  have hsize : st'.heap.frames.size = (st'.heap.bind g name v').frames.size :=
    (Heap.size_bind _ _ _ _).symm
  exact .done id (hst.with_heap (hst.heap.bind hfg name hv) (Nat.le_of_eq hsize)) rfl

/-- The same function is declared in two frames that are paired. -/
theorem declare_renamed (hfg : ρ f g) (name : String) (params : List String) {body : List Stmt}
    (hbody : Stmt.AllFunctionsAre ρ.Fixes body) :
    (Eval.declare f name params body).Renamed out ρ (fun _ => Eq)
      (Eval.declare g name params body) := by
  intro st st' hst
  have hsize : st'.heap.frames.size = (st'.heap.declare g name params body).frames.size := by
    rw [Heap.declare, Heap.size_define]
  exact .done id (hst.with_heap (hst.heap.declare hfg name params hbody) (Nat.le_of_eq hsize)) rfl

/-- New frames are paired. -/
theorem newFrame_renamed (hfg : ρ f g) {bs bs' : Bindings}
    (hbs : ∀ name, Option.Rel (Val.Renamed ρ) (bs.get? name) (bs'.get? name)) :
    (Eval.newFrame f bs).Renamed out ρ (fun ρ' a b => ρ' a b) (Eval.newFrame g bs') := by
  intro st st' hst
  let ρ' := ρ.plus st.heap.frames.size st'.heap.frames.size
  have hnew : State.Renamed out ρ' { st with heap := (st.heap.child f bs).2 }
      { st' with heap := (st'.heap.child g bs').2 } := by
    refine ⟨hst.heap.child hfg hbs, ?_, fun hl => ?_, hst.sink_eq, hst.limit?_eq, hst.steps_eq,
      hst.depth_eq⟩
    · rintro k l (hkl | ⟨-, rfl⟩) hl
      · exact hst.left_out hkl hl
      · exact Nat.lt_irrefl _ (hst.out_lt hl)
    · rw [Heap.size_child]
      exact Nat.lt_succ_of_lt (hst.out_lt hl)
  exact .done (fun hkl => .inl hkl) hnew (.inr ⟨rfl, rfl⟩)

/-- The same line is printed. -/
theorem printLine_renamed (text : String) :
    (Eval.printLine text).Renamed out ρ (fun _ => Eq) (Eval.printLine text) := by
  intro st st' hst
  unfold Eval.printLine
  rw [← hst.sink_eq]
  rcases st.sink.writeLine text with ⟨_ | cause, sink⟩
  · exact .done id { hst with sink_eq := rfl } rfl
  · exact .failed id { hst with sink_eq := rfl }

end Eval

/-! ## Expressions -/

/-- A builtin looks at the texts of its arguments, which are the same. -/
theorem Builtin.call_renamed (b : Builtin) {args args' : List Val} (pos : Position)
    (hargs : List.Forall₂ (Val.Renamed ρ) args args') :
    (b.call args pos).Renamed out ρ Val.Renamed (b.call args' pos) := by
  have hlength := hargs.length_eq
  have hnothing (ρ' : Pairing) : Val.nothing.Renamed ρ' .nothing :=
    Val.renamed_of_type (by simp [Val.type])
  cases b
  unfold Builtin.call
  cases hargs with
  | nil => exact .fail _
  | cons hv hrest =>
    cases hrest with
    | nil =>
      dsimp only
      rw [hv.text_eq]
      exact (Eval.printLine_renamed _).map fun ρ' _ _ _ => hnothing ρ'
    | cons _ _ =>
      dsimp only
      rw [hlength]
      exact .fail _

/-- The truth of a value is no function. -/
theorem Val.renamed_truth (ρ : Pairing) {v v' : Val} (h : v.Renamed ρ v') :
    (Val.bool v.truthy).Renamed ρ (.bool v'.truthy) := by
  rw [h.truthy_eq]
  exact Val.renamed_of_type (by simp [Val.type])

mutual

/-- An expression is evaluated in the same way in frames that are paired. -/
theorem Expr.eval_renamed {call : CallRule} (hcall : call.Renamed out) {ρ : Pairing}
    {f g : FrameId} (hfg : ρ f g) : ∀ e : Expr, e.FunctionsAre ρ.Fixes →
      (e.eval call f).Renamed out ρ Val.Renamed (e.eval call g)
  | .literal _ value, h => by
    rw [Expr.eval, Expr.eval]
    exact .pure (Val.renamed_ofLiteral h)
  | .var pos name, _ => by
    rw [Expr.eval, Expr.eval]
    exact Eval.readName_renamed hfg pos name
  | .unary pos op operand, h => by
    rw [Expr.eval, Expr.eval]
    apply (Expr.eval_renamed hcall hfg operand h).bind
    intro ρ' x x' _ hx
    rw [hx.unaryValue_eq]
    exact Eval.renamed_operator (unaryValue_answer pos op x')
  | .binary pos op left right, h => by
    rw [Expr.eval, Expr.eval]
    have hbool (ρ : Pairing) (b : Bool) : (Val.bool b).Renamed ρ (.bool b) :=
      Val.renamed_of_type (by simp [Val.type])
    apply (Expr.eval_renamed hcall hfg left h.1).bind
    intro ρ' l l' hρ hl
    have hright := Expr.eval_renamed hcall (hρ hfg) right (h.2.mono fun _ => hρ)
    -- the left operand decides in the same way whether the right one is evaluated
    rw [hl.truthy_eq]
    split
    · split
      · exact .pure (hbool _ _)
      · exact hright.map fun ρ'' _ _ hr => Val.renamed_truth ρ'' hr
    · split
      · split
        · exact hright.map fun ρ'' _ _ hr => Val.renamed_truth ρ'' hr
        · exact .pure (hbool _ _)
      · apply hright.bind
        intro ρ'' r r' hρ' hr
        rw [(hl.mono hρ').binaryValue_eq hr]
        exact Eval.renamed_operator (binaryValue_answer pos op l' r')
  | .call pos callee args, h => by
    rw [Expr.eval, Expr.eval]
    apply (Expr.eval_renamed hcall hfg callee h.1).bind
    intro ρ' v v' hρ hv
    have hargs := Expr.evalAll_renamed hcall (hρ hfg) args (h.2.mono fun _ => hρ)
    cases hv with
    | closure hclosure =>
      dsimp only
      rw [hclosure.params_eq]
      split
      · apply hargs.bind
        intro ρ'' values values' hρ' hvalues
        cases (Val.Renamed.closure hclosure).mono hρ' with
        | closure hclosure => exact hcall pos hclosure hvalues
        | plain hplain => exact absurd rfl (hplain _)
      · exact .fail _
    | plain hplain =>
      cases v with
      | closure c => exact absurd rfl (hplain c)
      | builtin b => exact hargs.bind fun ρ'' values values' _ hvalues => b.call_renamed pos hvalues
      | _ => exact .fail _

/-- Expressions one after the other, likewise. -/
theorem Expr.evalAll_renamed {call : CallRule} (hcall : call.Renamed out) {ρ : Pairing}
    {f g : FrameId} (hfg : ρ f g) : ∀ es : List Expr, Expr.AllFunctionsAre ρ.Fixes es →
      (Expr.evalAll call f es).Renamed out ρ (fun ρ' => List.Forall₂ (Val.Renamed ρ'))
        (Expr.evalAll call g es)
  | [], _ => by
    rw [Expr.evalAll, Expr.evalAll]
    exact .pure .nil
  | e :: rest, h => by
    rw [Expr.evalAll, Expr.evalAll]
    apply (Expr.eval_renamed hcall hfg e h.1).bind
    intro ρ' v v' hρ hv
    apply (Expr.evalAll_renamed hcall (hρ hfg) rest (h.2.mono fun _ => hρ)).bind
    intro ρ'' vs vs' hρ' hvs
    exact .pure (.cons (hv.mono hρ') hvs)

end

/-- A condition is true for both or for neither. -/
theorem loopCondition_renamed {call : CallRule} (hcall : call.Renamed out) (hfg : ρ f g)
    {condition : Option Expr} (h : ∀ e ∈ condition, e.FunctionsAre ρ.Fixes) :
    (loopCondition call f condition).Renamed out ρ (fun _ => Eq)
      (loopCondition call g condition) := by
  cases condition with
  | none => exact .pure rfl
  | some e => exact (Expr.eval_renamed hcall hfg e (h e rfl)).map fun ρ' v v' hv => hv.truthy_eq

/-! ## Statements -/

mutual

/-- A statement is executed in the same way in frames that are paired. -/
theorem Stmt.exec_renamed {call : CallRule} {loop : LoopRule} (hcall : call.Renamed out)
    (hloop : loop.Renamed out) {ρ : Pairing} {f g : FrameId} (hfg : ρ f g) : ∀ s : Stmt,
      s.FunctionsAre ρ.Fixes →
        (s.exec call loop f).Renamed out ρ Flow.Renamed (s.exec call loop g)
  | .expr e, h => by
    rw [Stmt.exec, Stmt.exec]
    exact (e.eval_renamed hcall hfg h).map fun _ _ _ _ => .normal
  | .assign name value, h => by
    rw [Stmt.exec, Stmt.exec]
    apply (value.eval_renamed hcall hfg h).bind
    intro ρ' v v' hρ hv
    exact (Eval.writeName_renamed (hρ hfg) name hv).map fun _ _ _ _ => .normal
  | .block body, h => by
    rw [Stmt.exec, Stmt.exec]
    apply (Eval.newFrame_renamed hfg fun _ => .none).bind
    intro ρ' frame frame' hρ hframe
    exact Stmt.execAll_renamed hcall hloop hframe body (h.mono fun _ => hρ)
  | .ifThen condition body, h => by
    rw [Stmt.exec, Stmt.exec]
    apply (condition.eval_renamed hcall hfg h.1).bind
    intro ρ' v v' hρ hv
    rw [hv.truthy_eq]
    split
    · exact Stmt.exec_renamed hcall hloop (hρ hfg) body (h.2.mono fun _ => hρ)
    · exact .pure .normal
  | .forLoop pos condition body, h => by
    rw [Stmt.exec, Stmt.exec]
    exact hloop pos condition body hfg h
  | .breakLoop, _ => by
    rw [Stmt.exec, Stmt.exec]
    exact .pure .breaking
  | .continueLoop, _ => by
    rw [Stmt.exec, Stmt.exec]
    exact .pure .continuing
  | .returnValue none, _ => by
    rw [Stmt.exec, Stmt.exec]
    exact .pure (.returning (Val.renamed_of_type (by simp [Val.type])))
  | .returnValue (some value), h => by
    rw [Stmt.exec, Stmt.exec]
    exact (value.eval_renamed hcall hfg h).map fun _ _ _ hv => .returning hv
  | .function name params body, h => by
    rw [Stmt.exec, Stmt.exec]
    exact (Eval.declare_renamed hfg name params h).map fun _ _ _ _ => .normal

/-- Statements one after the other, likewise. -/
theorem Stmt.execAll_renamed {call : CallRule} {loop : LoopRule} (hcall : call.Renamed out)
    (hloop : loop.Renamed out) {ρ : Pairing} {f g : FrameId} (hfg : ρ f g) :
    ∀ body : List Stmt, Stmt.AllFunctionsAre ρ.Fixes body →
      (Stmt.execAll call loop f body).Renamed out ρ Flow.Renamed (Stmt.execAll call loop g body)
  | [], _ => by
    rw [Stmt.execAll, Stmt.execAll]
    exact .pure .normal
  | s :: rest, h => by
    rw [Stmt.execAll, Stmt.execAll]
    apply (Stmt.exec_renamed hcall hloop hfg s h.1).bind
    intro ρ' flow flow' hρ hflow
    cases hflow with
    | normal => exact Stmt.execAll_renamed hcall hloop (hρ hfg) rest (h.2.mono fun _ => hρ)
    | breaking => exact .pure .breaking
    | continuing => exact .pure .continuing
    | returning hv => exact .pure (.returning hv)

end

/-! ## Calls and loops -/

/-- Bodies that end alike give values that are paired. -/
theorem Flow.callResult_renamed {flow flow' : Flow} (h : flow.Renamed ρ flow') :
    flow.callResult.Renamed out ρ Val.Renamed flow'.callResult := by
  cases h with
  | normal => exact .pure (Val.renamed_of_type (by simp [Val.type]))
  | breaking => exact .fail _
  | continuing => exact .fail _
  | returning hv => exact .pure hv

/-- **No number of a frame matters.** Whatever the fuel, functions that are paired are called in the
same way, and loops run in the same way in frames that are paired. -/
theorem rules_renamed (fuel : Nat) :
    (callWithin fuel).Renamed out ∧ (loopWithin fuel).Renamed out := by
  induction fuel with
  | zero =>
    constructor
    · intro ρ c c' args args' pos _ _
      rw [callWithin, callWithin]
      exact fun _ _ _ => .unfinished
    · intro ρ f g pos condition body _ _
      rw [loopWithin, loopWithin]
      exact fun _ _ _ => .unfinished
  | succ fuel ih =>
    obtain ⟨hcall, hloop⟩ := ih
    constructor
    · intro ρ c c' args args' pos hc hargs
      rw [callWithin, callWithin, hc.params_eq, hc.body_eq]
      refine Eval.insideCall_renamed pos (fun ρ' hρ => ?_) fun hρ hv => hv.mono hρ
      have hbound (name : String) : Option.Rel (Val.Renamed ρ')
          ((Bindings.ofArguments c'.params args).get? name)
          ((Bindings.ofArguments c'.params args').get? name) :=
        Option.Rel.mono (.mono hρ) (Bindings.get?_ofArguments_rel c'.params hargs name)
      have hstanding : Stmt.AllFunctionsAre ρ.Fixes c'.body := hc.body_eq ▸ hc.standing
      apply (Eval.newFrame_renamed (hρ hc.scope) hbound).bind
      intro ρ'' frame frame' hρ' hframe
      have hbody := hstanding.mono fun _ h => hρ' (hρ h)
      apply (Stmt.execAll_renamed hcall hloop hframe c'.body hbody).bind
      intro ρ''' flow flow' _ hflow
      exact Flow.callResult_renamed hflow
    · intro ρ f g pos condition body hfg h
      obtain ⟨hcondition, hbody⟩ := Stmt.functionsAre_forLoop.mp h
      rw [loopWithin, loopWithin]
      apply (loopCondition_renamed hcall hfg hcondition).bind
      rintro ρ' again _ hρ rfl
      split
      · apply (Eval.step_renamed pos).bind
        intro ρ'' _ _ hρ' _
        have hbody := hbody.mono fun _ h => hρ' (hρ h)
        apply (Stmt.exec_renamed hcall hloop (hρ' (hρ hfg)) body hbody).bind
        intro ρ''' flow flow' hρ'' hflow
        have hpair := hρ'' (hρ' (hρ hfg))
        have hagain := h.mono fun _ h => hρ'' (hρ' (hρ h))
        cases hflow with
        | breaking => exact .pure .normal
        | returning hv => exact .pure (.returning hv)
        | normal => exact hloop pos condition body hpair hagain
        | continuing => exact hloop pos condition body hpair hagain
      · exact .pure .normal

/-! ## Linked heaps -/

/-- A state with a linked heap is paired with itself. -/
theorem State.renamed_self {st : State} (h : st.heap.Linked) :
    st.Renamed (fun _ => False) (fun f g => f = g ∧ f < st.heap.frames.size) st where
  heap := h.renamed
  left_out _ := id
  out_lt := False.elim
  sink_eq := rfl
  limit?_eq := rfl
  steps_eq := .inr rfl
  depth_eq := rfl

/-- A part of a program that does the same up to the numbers of frames leaves a linked heap
linked. -/
theorem Eval.Renamed.linked {α : Type} {m : Eval α} {P : Pairing → α → α → Prop} {st st' : State}
    (hm : m.Renamed (fun _ => False) (fun f g => f = g ∧ f < st.heap.frames.size) P m)
    (h : st.heap.Linked) (hended : (m st).state? = some st') : st'.heap.Linked := by
  have houtcome := hm st st (State.renamed_self h)
  generalize m st = o at houtcome hended
  cases houtcome with
  | done _ hst _ =>
    cases hended
    exact hst.heap.linked
  | failed _ hst =>
    cases hended
    exact hst.heap.linked
  | unfinished | crashed => cases hended

/-- A statement leaves a linked heap linked. -/
theorem Stmt.execWithin_linked {fuel : Nat} {f : FrameId} {st st' : State} {s : Stmt}
    (hs : s.FunctionsAre (·.scope < st.heap.frames.size)) (h : st.heap.Linked)
    (hf : f < st.heap.frames.size)
    (hended : (s.exec (callWithin fuel) (loopWithin fuel) f st).state? = some st') :
    st'.heap.Linked := by
  have hfixed : s.FunctionsAre (Pairing.Fixes fun f g => f = g ∧ f < st.heap.frames.size) :=
    hs.mono fun _ hd => ⟨rfl, hd⟩
  exact (Stmt.exec_renamed (rules_renamed fuel).1 (rules_renamed fuel).2 ⟨rfl, hf⟩ s hfixed).linked
    h hended

/-- Programs do the same up to the numbers of frames, if the root frames are paired. -/
theorem runProgram_renamed {fuel : Nat} {ρ : Pairing} (hroot : ρ Heap.root Heap.root)
    {program : List Stmt} (h : Stmt.AllFunctionsAre ρ.Fixes program) :
    (runProgram fuel program).Renamed out ρ (fun ρ' => Option.Rel (Val.Renamed ρ'))
      (runProgram fuel program) := by
  obtain ⟨hcall, hloop⟩ := @rules_renamed out fuel
  induction program generalizing ρ with
  | nil =>
    rw [runProgram]
    exact .pure .none
  | cons s rest ih =>
    rcases runProgram_cons fuel s rest with ⟨e, rfl, rfl⟩ | heq
    · rw [runProgram]
      exact (e.eval_renamed hcall hroot h.1).map fun _ _ _ hv => .some hv
    · rw [heq]
      apply (s.exec_renamed hcall hloop hroot h.1).bind
      intro ρ' flow flow' hρ hflow
      cases hflow with
      | normal => exact ih (hρ hroot) (h.2.mono fun _ => hρ)
      | breaking => exact .fail _
      | continuing => exact .fail _
      | returning _ => exact .fail _

/-- So does a program. -/
theorem runProgram_linked {fuel : Nat} {st st' : State} {program : List Stmt}
    (hprogram : Stmt.AllFunctionsAre (·.scope < st.heap.frames.size) program)
    (h : st.heap.Linked) (hroot : Heap.root < st.heap.frames.size)
    (hended : (runProgram fuel program st).state? = some st') : st'.heap.Linked := by
  have hfixed : Stmt.AllFunctionsAre (Pairing.Fixes fun f g => f = g ∧ f < st.heap.frames.size)
      program := hprogram.mono fun _ hd => ⟨rfl, hd⟩
  exact (runProgram_renamed ⟨rfl, hroot⟩ hfixed).linked h hended

end TwinScript
