import TwinScript.Proofs.Eval.Growth
import TwinScript.Proofs.Eval.Names
import TwinScript.Proofs.Eval.Renaming

/-!
# Conditions and guards

A loop with a condition does what the loop without one does whose body begins with a guard, which
breaks unless the condition holds. The two evaluate the condition in different frames: one in the
frame of the loop, the other in that of the body, which is new and binds nothing yet. No expression
can tell the difference (`Expr.eval_blank`). The frames that the two loops make come in a different
order, and the guard makes one that the condition does not; so the heaps behind them are the same up
to the numbers of frames (`loopWithin_guarded`).

* `Outcome.SameSince`: what is the same of the ends of two statements.
* `conditions_are_guards`: the two loops end in the same way.
-/

namespace TwinScript

/-! ## Blank frames -/

/-- The frame `b` lies in the frame `f` and binds nothing; and parents are older from there on. -/
structure Heap.Blank (h : Heap) (f b : FrameId) : Prop where
  lt_size : b < h.frames.size
  above : h.above? b = some f
  bare : ∀ name, ¬ h.Binds b name
  older : ∀ g parent, g ≤ b → h.above? g = some parent → parent < g

namespace Heap

variable {h h' : Heap} {f b : FrameId} {name : String}

/-- A new frame without bindings is blank. -/
theorem blank_child (holder : h.ParentsOlder) (hf : f < h.frames.size) :
    (h.child f []).2.Blank f h.frames.size where
  lt_size := by
    rw [size_child]
    exact Nat.lt_succ_self _
  above := by rw [above?_child, if_pos rfl]
  bare name hbinds := by
    rw [Binds, here?_child, if_pos rfl] at hbinds
    cases hbinds
  older g parent _ := holder.child hf [] g parent

/-- It stays so where no names are added to the frames there were. -/
theorem Blank.gains (hb : h.Blank f b) (hh : h.GainsIn (fun _ => False) h') : h'.Blank f b where
  lt_size := Nat.lt_of_lt_of_le hb.lt_size hh.size_le
  above := (hh.above?_eq b hb.lt_size).trans hb.above
  bare name hbinds := (hh.added b name hb.lt_size hbinds).elim (hb.bare name) id
  older g parent hg hparent := by
    rw [hh.above?_eq g (Nat.lt_of_le_of_lt hg hb.lt_size)] at hparent
    exact hb.older g parent hg hparent

/-- More hops than there are frames on the way up make no difference. -/
theorem binderWithin?_eq_of_lt {hops hops' : Nat} (hf : f < hops) (hf' : f < hops')
    (holder : ∀ g parent, g ≤ f → h.above? g = some parent → parent < g) :
    h.binderWithin? name hops f = h.binderWithin? name hops' f := by
  induction hops generalizing hops' f with
  | zero => exact absurd hf (Nat.not_lt_zero f)
  | succ hops ih =>
    cases hops' with
    | zero => exact absurd hf' (Nat.not_lt_zero f)
    | succ hops' =>
      rw [binderWithin?_succ, binderWithin?_succ]
      split
      · rfl
      · refine Option.bind_congr fun parent hparent => ?_
        have hless := holder f parent (Nat.le_refl f) hparent
        exact ih (Nat.lt_of_lt_of_le hless (Nat.le_of_lt_succ hf))
          (Nat.lt_of_lt_of_le hless (Nat.le_of_lt_succ hf')) fun g grandparent hg =>
            holder g grandparent (Nat.le_trans hg (Nat.le_of_lt hless))

/-- From a blank frame a name is what it is from the frame around it. -/
theorem Blank.get?_eq (hb : h.Blank f b) (name : String) : h.get? b name = h.get? f name := by
  have hless : f < b := hb.older b f (Nat.le_refl b) hb.above
  have hbinder : h.binder? b name = h.binder? f name := by
    rw [Heap.binder?, binderWithin?_succ, if_neg (hb.bare name), hb.above]
    exact binderWithin?_eq_of_lt hless (Nat.lt_succ_self f) fun g parent hg =>
      hb.older g parent (Nat.le_trans hg (Nat.le_of_lt hless))
  rw [Heap.get?, Heap.get?, hbinder]

end Heap

/-- Two parts in a row do the same from a state as two others do. -/
theorem Eval.bind_congr_at {α β : Type} {m m' : Eval α} {next next' : α → Eval β} {st : State}
    (hm : m st = m' st) (hnext : ∀ a mid, m' st = .done a mid → next a mid = next' a mid) :
    (m >>= next) st = (m' >>= next') st := by
  rw [bind_apply, bind_apply, hm]
  cases hr : m' st with
  | done a mid => exact hnext a mid hr
  | failed _ _ | unfinished | crashed => rfl

section

variable {fuel : Nat} {f b : FrameId}

theorem Heap.Blank.evaluated {e : Expr} {st mid : State} {v : Val} (hb : st.heap.Blank f b)
    (hdone : e.eval (callWithin fuel) f st = .done v mid) : mid.heap.Blank f b :=
  hb.gains (e.evalWithin_gains (by rw [hdone]; rfl))

mutual

/-- **An expression is evaluated in a blank frame** as it is in the frame around it. -/
theorem Expr.eval_blank : ∀ (e : Expr) {st : State}, st.heap.Blank f b →
    e.eval (callWithin fuel) b st = e.eval (callWithin fuel) f st
  | .literal _ _, _, _ => by rw [Expr.eval, Expr.eval]
  | .var pos name, st, hb => by
    rw [Expr.eval, Expr.eval, Eval.readName, Eval.readName, hb.get?_eq name]
  | .unary pos op operand, st, hb => by
    rw [Expr.eval, Expr.eval]
    exact Eval.bind_congr_at (Expr.eval_blank operand hb) fun _ _ _ => rfl
  | .binary pos op left right, st, hb => by
    rw [Expr.eval, Expr.eval]
    apply Eval.bind_congr_at (Expr.eval_blank left hb)
    intro l mid hdone
    have hright := Expr.eval_blank right (hb.evaluated hdone)
    split
    · split
      · rfl
      · exact Eval.bind_congr_at hright fun _ _ _ => rfl
    · split
      · split
        · exact Eval.bind_congr_at hright fun _ _ _ => rfl
        · rfl
      · exact Eval.bind_congr_at hright fun _ _ _ => rfl
  | .call pos callee args, st, hb => by
    rw [Expr.eval, Expr.eval]
    apply Eval.bind_congr_at (Expr.eval_blank callee hb)
    intro v mid hdone
    have hargs := Expr.evalAll_blank args (hb.evaluated hdone)
    cases v with
    | closure c =>
      dsimp only
      split
      · exact Eval.bind_congr_at hargs fun _ _ _ => rfl
      · rfl
    | builtin _ => exact Eval.bind_congr_at hargs fun _ _ _ => rfl
    | _ => rfl

/-- So are expressions one after the other. -/
theorem Expr.evalAll_blank : ∀ (es : List Expr) {st : State}, st.heap.Blank f b →
    Expr.evalAll (callWithin fuel) b es st = Expr.evalAll (callWithin fuel) f es st
  | [], _, _ => by rw [Expr.evalAll, Expr.evalAll]
  | e :: rest, st, hb => by
    rw [Expr.evalAll, Expr.evalAll]
    apply Eval.bind_congr_at (Expr.eval_blank e hb)
    intro v mid hdone
    exact Eval.bind_congr_at (Expr.evalAll_blank rest (hb.evaluated hdone)) fun _ _ _ => rfl

end

end

/-! ## Rounds -/

/-- What a loop makes of the way its body ended, where `next` are the rounds that may follow. -/
def Flow.nextRound (next : Eval Flow) : Flow → Eval Flow
  | .breaking => pure .normal
  | .returning v => pure (.returning v)
  | _ => next

/-- Bodies that end in the same way are followed by the same, if the rounds behind them are. -/
theorem Flow.Renamed.nextRound {out : FrameId → Prop} {ρ : Pairing} {flow flow' : Flow}
    (h : flow.Renamed ρ flow') {st st' : State} (hst : st.Renamed out ρ st')
    {next next' : Eval Flow} (hnext : (next st).Renamed out ρ Flow.Renamed (next' st')) :
    (flow.nextRound next st).Renamed out ρ Flow.Renamed (flow'.nextRound next' st') := by
  cases h with
  | normal => exact hnext
  | continuing => exact hnext
  | breaking => exact .done id hst .normal
  | returning hv => exact .done id hst (.returning hv)

theorem loopWithin_succ_some (fuel : Nat) (f : FrameId) (pos : Position) (c : Expr) (body : Stmt) :
    loopWithin (fuel + 1) f pos (some c) body = (do
      let x ← c.eval (callWithin fuel) f
      if x.truthy then do
        Eval.step pos
        let flow ← body.exec (callWithin fuel) (loopWithin fuel) f
        flow.nextRound (loopWithin fuel f pos (some c) body)
      else pure .normal) := by
  rw [loopWithin, loopCondition, bind_assoc]
  refine congrArg _ (funext fun x => ?_)
  rw [pure_bind]
  split
  · refine congrArg _ (funext fun _ => congrArg _ (funext fun flow => ?_))
    cases flow <;> rfl
  · rfl

theorem loopWithin_succ_none (fuel : Nat) (f : FrameId) (pos : Position) (body : Stmt) :
    loopWithin (fuel + 1) f pos none body = (do
      Eval.step pos
      let flow ← body.exec (callWithin fuel) (loopWithin fuel) f
      flow.nextRound (loopWithin fuel f pos none body)) := by
  rw [loopWithin, loopCondition, pure_bind, if_pos rfl]
  refine congrArg _ (funext fun _ => congrArg _ (funext fun flow => ?_))
  cases flow <;> rfl

/-- The block of `body` behind a guard, which breaks unless the condition holds. -/
def Stmt.guarded (pos : Position) (c : Expr) (body : List Stmt) : Stmt :=
  .block (.ifThen (.unary pos (.symbol .bang) c) (.block [.breakLoop]) :: body)

theorem Stmt.exec_guarded (call : CallRule) (loop : LoopRule) (f : FrameId) (pos : Position)
    (c : Expr) (body : List Stmt) :
    (Stmt.guarded pos c body).exec call loop f = (do
      let b ← Eval.newFrame f []
      let x ← c.eval call b
      if x.truthy then Stmt.execAll call loop b body
      else do
        let _ ← Eval.newFrame b []
        pure .breaking) := by
  rw [guarded, exec]
  refine congrArg _ (funext fun b => ?_)
  rw [execAll, exec, Expr.eval, bind_assoc, bind_assoc]
  refine congrArg _ (funext fun x => ?_)
  have hnot : Eval.ofExcept (unaryValue pos (.symbol .bang) x) = pure (.bool (!x.truthy)) := rfl
  rw [hnot, pure_bind]
  cases hx : x.truthy with
  | true => rfl
  | false =>
    show (Stmt.exec call loop b (.block [.breakLoop]) >>= _) = _
    rw [exec, bind_assoc]
    refine congrArg _ (funext fun frame => ?_)
    rw [execAll, exec]
    rfl

/-! ## The two loops -/

/-- Without a limit, a round is charged for and goes on. -/
theorem Eval.step_unlimited {st : State} (h : st.limit? = none) (pos : Position) :
    Eval.step pos st = .done () { st with steps := st.steps + 1 } := by
  rw [Eval.step, h]

/-- No part of a program changes the limit. -/
theorem Eval.Built.limit?_eq {α : Type} {m : Eval α} (hm : m.Built) {st st' : State} {a : α}
    (h : m st = .done a st') : st'.limit? = st.limit? :=
  (hm.grows st st' (by rw [h]; rfl)).limit?_eq

/-- Where the condition holds, the frame of the body is new in one loop, and has been there since
before the condition in the other. -/
theorem State.Renamed.adopt {ρ : Pairing} {f g b : FrameId} {st st' : State}
    (h : st.Renamed (· = b) ρ st') (hfg : ρ f g) (hb : st'.heap.Blank g b)
    (hlimit : st.limit? = none) :
    State.Renamed (fun _ => False) (ρ.plus st.heap.frames.size b)
      { st with steps := st.steps + 1, heap := (st.heap.child f []).2 } st' where
  heap := by
    refine h.heap.adopt hfg hb.lt_size (fun k hk => h.left_out hk rfl) hb.above fun name => ?_
    have hnone : st'.heap.here? b name = none := Option.not_isSome_iff_eq_none.mp (hb.bare name)
    rw [hnone]
    exact .none
  left_out _ := id
  out_lt := False.elim
  sink_eq := h.sink_eq
  limit?_eq := h.limit?_eq
  steps_eq := .inl hlimit
  depth_eq := h.depth_eq

section

variable {fuel : Nat} {pos pos' guard : Position} {c : Expr} {body : List Stmt} {ρ : Pairing}
  {f g : FrameId} {st st' : State}

/-- A round of the first loop behind its condition. -/
theorem round_of_condition (hlimit : st.limit? = none) (next : Eval Flow) :
    (do
      Eval.step pos
      let flow ← (Stmt.block body).exec (callWithin fuel) (loopWithin fuel) f
      flow.nextRound next) st =
    (do
      let flow ← Stmt.execAll (callWithin fuel) (loopWithin fuel) st.heap.frames.size body
      flow.nextRound next)
        { st with steps := st.steps + 1, heap := (st.heap.child f []).2 } := by
  rw [Eval.bind_apply, Eval.step_unlimited hlimit, Stmt.exec, bind_assoc]
  rfl

/-- A round of the second loop. -/
theorem round_of_guarded (hlimit : st.limit? = none) :
    loopWithin (fuel + 1) g pos none (.guarded guard c body) st =
      (do
        let x ← c.eval (callWithin fuel) st.heap.frames.size
        if x.truthy then do
          let flow ← Stmt.execAll (callWithin fuel) (loopWithin fuel) st.heap.frames.size body
          flow.nextRound (loopWithin fuel g pos none (.guarded guard c body))
        else do
          let _ ← Eval.newFrame st.heap.frames.size []
          pure .normal)
        { st with steps := st.steps + 1, heap := (st.heap.child g []).2 } := by
  -- whether the guard breaks is known before the body
  have hguard (b : FrameId) (next : Eval Flow) :
      ((do
        let x ← c.eval (callWithin fuel) b
        if x.truthy then Stmt.execAll (callWithin fuel) (loopWithin fuel) b body
        else do
          let _ ← Eval.newFrame b []
          pure .breaking) >>= Flow.nextRound next) =
      (do
        let x ← c.eval (callWithin fuel) b
        if x.truthy then do
          let flow ← Stmt.execAll (callWithin fuel) (loopWithin fuel) b body
          flow.nextRound next
        else do
          let _ ← Eval.newFrame b []
          pure .normal) := by
    rw [bind_assoc]
    refine congrArg _ (funext fun x => ?_)
    split <;> rfl
  rw [loopWithin_succ_none, Eval.bind_apply, Eval.step_unlimited hlimit, Stmt.exec_guarded,
    bind_assoc]
  exact congrFun (hguard st.heap.frames.size _) _

end

/-- **The rounds of the two loops** are the same up to the numbers of frames. -/
theorem loopWithin_guarded (pos pos' guard : Position) (c : Expr) (body : List Stmt) (fuel : Nat)
    {ρ : Pairing} {f g : FrameId} (hfg : ρ f g) (hc : c.FunctionsAre ρ.Fixes)
    (hbody : Stmt.AllFunctionsAre ρ.Fixes body) {st st' : State}
    (hst : st.Renamed (fun _ => False) ρ st') (hlimit : st.limit? = none) :
    (loopWithin fuel f pos (some c) (.block body) st).Renamed (fun _ => False) ρ Flow.Renamed
      (loopWithin fuel g pos' none (.guarded guard c body) st') := by
  induction fuel generalizing ρ f g st st' with
  | zero =>
    rw [loopWithin, loopWithin]
    exact .unfinished
  | succ fuel ih =>
    let b := st'.heap.frames.size
    let inside : State := { st' with steps := st'.steps + 1, heap := (st'.heap.child g []).2 }
    have hg : g < st'.heap.frames.size := (hst.heap.exist hfg).2
    have hblank : inside.heap.Blank g b := Heap.blank_child hst.heap.older' hg
    have hinside : st.Renamed (· = b) ρ inside := by
      refine ⟨hst.heap.extra hg [], ?_, ?_, hst.sink_eq, hst.limit?_eq, .inl hlimit, hst.depth_eq⟩
      · rintro k _ hk rfl
        exact Nat.lt_irrefl _ (hst.heap.exist hk).2
      · rintro _ rfl
        exact hblank.lt_size
    have hcondition : (c.eval (callWithin fuel) f st).Renamed (· = b) ρ Val.Renamed
        (c.eval (callWithin fuel) b inside) := by
      rw [Expr.eval_blank c hblank]
      exact Expr.eval_renamed (rules_renamed fuel).1 hfg c hc st inside hinside
    rw [loopWithin_succ_some, round_of_guarded (hst.limit?_eq ▸ hlimit)]
    refine Eval.renamed_bind_at (fun _ => False.elim) hcondition ?_
    intro ρ' x x' mid mid' hdone hdone' hρ hmid hx
    rw [Expr.eval_blank c hblank] at hdone'
    have hlimit' : mid.limit? = none :=
      ((Expr.eval_closed Eval.Built.closed (rules_built fuel).1 f c).limit?_eq hdone).trans hlimit
    have hstill : mid'.heap.Blank g b := hblank.evaluated hdone'
    rw [hx.truthy_eq]
    split
    · -- the body is executed in frames that are paired from here on
      rw [round_of_condition hlimit']
      have hnew := hmid.adopt (hρ hfg) hstill hlimit'
      obtain ⟨hcall, hloop⟩ := @rules_renamed (fun _ => False) fuel
      have hpair : Pairing.plus ρ' mid.heap.frames.size b mid.heap.frames.size b :=
        .inr ⟨rfl, rfl⟩
      have hround := Stmt.execAll_renamed hcall hloop hpair body (hbody.mono fun _ h => .inl (hρ h))
        _ _ hnew
      refine (Eval.renamed_bind_at (fun _ => id) hround ?_).of_later .inl
      intro ρ'' flow flow' last last' hdone _ hρ' hlast hflow
      have hlimit'' : last.limit? = none := by
        obtain ⟨hcalls, hloops⟩ := rules_built fuel
        exact ((Stmt.execAll_closed Eval.Built.closed hcalls hloops _ body).limit?_eq hdone).trans
          hlimit'
      have hlater {k l : FrameId} (hkl : ρ k l) : ρ'' k l := hρ' (.inl (hρ hkl))
      exact hflow.nextRound hlast (ih (hlater hfg) (hc.mono fun _ => hlater)
        (hbody.mono fun _ => hlater) hlast hlimit'')
    · -- the guard breaks, in a frame that nothing refers to
      refine .done id ⟨hmid.heap.extra hstill.lt_size [], fun _ => id, False.elim, hmid.sink_eq,
        hmid.limit?_eq, .inl hlimit', hmid.depth_eq⟩ .normal

/-! ## The ends of the two loops -/

/-- Since there were `n` frames, the states have come to differ in nothing but the numbers of the
frames made meanwhile, and in frames of the second that cannot be reached from those that are
paired: the same has been printed, and the heaps are the same. -/
structure State.SameSince (n : Nat) (ρ : Pairing) (st st' : State) : Prop where
  heap : st.heap.Renamed ρ st'.heap
  old : ∀ f, f < n → ρ f f
  reached : ∀ s t g, ρ s t → st'.heap.Reaches t g → ∃ f, ρ f g ∧ st.heap.Reaches s f
  sink_eq : st.sink = st'.sink

/-- The outcomes of two statements are the same since there were `n` frames: they end in the same
way, or with the same error at the same place, or neither ends, or both crash. -/
inductive Outcome.SameSince (n : Nat) : Outcome Flow → Outcome Flow → Prop
  | done {ρ : Pairing} {flow flow' : Flow} {st st' : State} (hst : st.SameSince n ρ st')
      (hflow : flow.Renamed ρ flow') : Outcome.SameSince n (.done flow st) (.done flow' st')
  | failed {ρ : Pairing} {st st' : State} (e : EvalError) (hst : st.SameSince n ρ st') :
      Outcome.SameSince n (.failed e st) (.failed e st')
  | unfinished : Outcome.SameSince n .unfinished .unfinished
  | crashed : Outcome.SameSince n .crashed .crashed

theorem Outcome.Renamed.sameSince {out : FrameId → Prop} {n : Nat} {o o' : Outcome Flow}
    (h : o.Renamed out (fun f g => f = g ∧ f < n) Flow.Renamed o') : o.SameSince n o' := by
  have hsame {ρ : Pairing} {st st' : State} (hρ : Subrelation (fun f g => f = g ∧ f < n) ρ)
      (hst : st.Renamed out ρ st') : st.SameSince n ρ st' :=
    ⟨hst.heap, fun f hf => hρ ⟨rfl, hf⟩, fun _ _ _ hpair => hst.heap.exists_of_reaches hpair,
      hst.sink_eq⟩
  cases h with
  | done hρ hst hflow => exact .done (hsame hρ hst) hflow
  | failed hρ hst => exact .failed _ (hsame hρ hst)
  | unfinished => exact .unfinished
  | crashed => exact .crashed

theorem Outcome.SameSince.unfinished_iff {n : Nat} {o o' : Outcome Flow} (h : o.SameSince n o') :
    o = .unfinished ↔ o' = .unfinished := by
  cases h <;> simp

/-- **Conditions are guards.** Without a step limit, in any frame of a linked heap, a loop with a
condition around a block ends as the loop without one does whose block begins with a guard that
breaks unless the condition holds: in the same way or with the same error, with the same output, and
with the same heap up to the numbers of frames made meanwhile and to frames that cannot be reached.
They do so within the same fuel, so neither ends if the other does not. Heaps are linked at first,
and statements and programs leave them so (`Heap.linked_initial`, `Stmt.execWithin_linked`,
`runProgram_linked`); if functions stand as values in the condition or in the block, they have to be
declared in frames of the heap, too. -/
theorem conditions_are_guards (c : Expr) (body : List Stmt) (pos pos' guard : Position)
    {f : FrameId} {st : State} (hlimit : st.limit? = none) (hlinked : st.heap.Linked)
    (hf : f < st.heap.frames.size) (hc : c.FunctionsAre (·.scope < st.heap.frames.size))
    (hbody : Stmt.AllFunctionsAre (·.scope < st.heap.frames.size) body) :
    let conditioned := fun fuel =>
      (Stmt.forLoop pos (some c) (.block body)).exec (callWithin fuel) (loopWithin fuel) f st
    let guarded := fun fuel =>
      (Stmt.forLoop pos' none (.guarded guard c body)).exec (callWithin fuel) (loopWithin fuel) f st
    (∀ fuel, (conditioned fuel).SameSince st.heap.frames.size (guarded fuel)) ∧
      ((∀ fuel, conditioned fuel = .unfinished) ↔ ∀ fuel, guarded fuel = .unfinished) := by
  intro conditioned guarded
  have hsame (fuel : Nat) : (conditioned fuel).SameSince st.heap.frames.size (guarded fuel) := by
    simp only [conditioned, guarded, Stmt.exec]
    exact (loopWithin_guarded pos pos' guard c body fuel ⟨rfl, hf⟩ (hc.mono fun _ h => ⟨rfl, h⟩)
      (hbody.mono fun _ h => ⟨rfl, h⟩) (State.renamed_self hlinked) hlimit).sameSince
  exact ⟨hsame, forall_congr' fun fuel => (hsame fuel).unfinished_iff⟩

/-- A loop that counts to two and declares a function in each of its rounds. -/
theorem conditions_are_guards_in_a_counting_loop :
    let p : Position := ⟨1, 1⟩
    let c : Expr := .binary p (.symbol .less) (.var p "i") (.literal p (.int 2))
    let body : List Stmt := [.function "g" [] [],
      .assign "i" (.binary p (.symbol .plus) (.var p "i") (.literal p (.int 1)))]
    let st : State :=
      ⟨Heap.initial.define Heap.root "i" (.int 0), .unlimited, 0, none, 0⟩
    let conditioned :=
      (Stmt.forLoop p (some c) (.block body)).exec (callWithin 3) (loopWithin 3) Heap.root st
    let guarded :=
      (Stmt.forLoop p none (.guarded p c body)).exec (callWithin 3) (loopWithin 3) Heap.root st
    st.limit? = none ∧ st.heap.Linked ∧ conditioned.state?.isSome ∧
      conditioned.SameSince 1 guarded := by
  intro p c body st conditioned guarded
  have hlinked : st.heap.Linked := by
    refine ⟨Heap.parentsOlder_initial.define Heap.root "i" (.int 0), fun f name v hv => ?_⟩
    rcases Heap.here?_define_cases hv with rfl | hbefore
    · trivial
    · cases (Heap.here?_initial f name).symm.trans hbefore
  have hlimit : st.limit? = none := rfl
  have hsame := conditions_are_guards c body p p p hlimit hlinked Nat.one_pos ⟨trivial, trivial⟩
    ⟨trivial, ⟨trivial, trivial⟩, trivial⟩
  exact ⟨hlimit, hlinked, by decide +kernel, hsame.1 3⟩

end TwinScript
