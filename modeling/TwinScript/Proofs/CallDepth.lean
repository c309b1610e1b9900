import TwinScript.Proofs.Eval.Growth
import TwinScript.Proofs.Eval.Moments

/-!
# The depth of calls

The depth that a run keeps is the number of functions whose bodies are being executed, at every
moment until an error. It grows when a call is entered and shrinks when it is left, and everything
that ends with a result ends at the depth at which it began (`Eval.Built.depth_eq`); so calls in a
row, however many, do not add up. An error is passed on from the depth at which it arose, and each
function that it takes down is left in turn. A call that fails at its step has taken its level
already and does not give it back, so the depth may then be greater than the number of functions,
but never less.

* `Told.Counted`: what is said of a part of a run, with a rule for parts in a row and one for the
  body of a function.
* `Watched.counts_walk`: all parts are counted.
* `call_depth_accounts`: the same of programs, and exactly when a call is too deep.
-/

namespace TwinScript

/-! ## Counting -/

/-- A function of the program is called at `pos`, with as many arguments as it takes, while as many
functions are running as may be. -/
def Moment.IsTooDeep (pos : Position) (m : Moment) : Prop :=
  ∃ c args, m.deed = .call c args pos ∧ args.length = c.params.length ∧
    m.st.depth = maxCallDepth

/-- At the moment, which is before any error, the depth is `base` and one for every function that is
running, and no more than allowed; and a function is left only where one is running. -/
structure Moment.Counted (base : Nat) (m : Moment) : Prop where
  before_error : m.deed ≠ .unwind
  depth_eq : m.st.depth = base + m.running.length
  depth_le : m.st.depth ≤ maxCallDepth
  leaves : m.deed = .leave → m.running ≠ []

/-- At the moment a function is left that an error takes down; one is running, and the depth is
enough for all that are. -/
structure Moment.Unwinds (base : Nat) (m : Moment) : Prop where
  behind_error : m.deed = .unwind
  leaves : m.running ≠ []
  le_depth : base + m.running.length ≤ m.st.depth

/-- Calls are counted throughout: at every moment until an error, and at those behind it; and also
in the end, where the depth is `after` if there is a result, and at least `floor` if there is an
error. The error is that of a call which is too deep exactly if there was one. -/
structure Told.Counted {α : Type} (base floor after : Nat) (P : α → Prop) (told : Told α) :
    Prop where
  moments : ∃ before behind, told.1 = before ++ behind ∧ (∀ m ∈ before, m.Counted base) ∧
    (∀ m ∈ behind, m.Unwinds base) ∧ (behind ≠ [] → ∃ e st, told.2 = .failed e st)
  done : ∀ a st, told.2 = .done a st → st.depth = after ∧ P a
  failed : ∀ e st, told.2 = .failed e st → floor ≤ st.depth
  not_crashed : told.2 ≠ .crashed
  tooDeep : ∀ pos, (∃ st, told.2 = .failed (.callDepthExceeded pos) st) ↔
    ∃ m ∈ told.1, m.IsTooDeep pos

/-- The watched part is counted, and begins and ends at the same depth. -/
def Watched.Counts {α : Type} (w : Watched α) (P : α → Prop) : Prop :=
  ∀ base running held st, st.depth = base + running.length → st.depth ≤ maxCallDepth →
    Told.Counted base st.depth st.depth P (w running held st)

namespace Told.Counted

variable {α β : Type} {base floor inner after last : Nat} {P : α → Prop} {P' : β → Prop}
  {running : List Closure} {held : List Val} {st : State}

theorem of_done {a : α} (hst : st.depth = after) (ha : P a) :
    Told.Counted base floor after P ([], .done a st) := by
  refine ⟨⟨[], [], rfl, by simp⟩, ?_, ?_, ?_, ?_⟩
  · rintro _ _ ⟨⟩
    exact ⟨hst, ha⟩
  · rintro _ _ ⟨⟩
  · rintro ⟨⟩
  · simp

theorem of_unfinished : Told.Counted base floor after P (([], .unfinished) : Told α) := by
  refine ⟨⟨[], [], rfl, by simp⟩, ?_, ?_, ?_, ?_⟩
  · rintro _ _ ⟨⟩
  · rintro _ _ ⟨⟩
  · rintro ⟨⟩
  · simp

/-- A moment that ends with a result is counted, unless it was a call that is too deep. -/
theorem of_act_done {deed : Deed} {m : Eval α} {a : α} {st' : State}
    (hmoment : Moment.Counted base ⟨deed, running, held, st⟩) (hdone : m st = .done a st')
    (hafter : st'.depth = after) (ha : P a)
    (hnot : ∀ pos, ¬ Moment.IsTooDeep pos ⟨deed, running, held, st⟩) :
    Told.Counted base floor after P (Watched.act deed m running held st) := by
  rw [Watched.act, hdone]
  refine ⟨⟨[_], [], rfl, List.forall_mem_singleton.mpr hmoment, by simp⟩, ?_, ?_, ?_,
    fun pos => iff_of_false ?_ ?_⟩
  · rintro _ _ ⟨⟩
    exact ⟨hafter, ha⟩
  · rintro _ _ ⟨⟩
  · rintro ⟨⟩
  · rintro ⟨_, ⟨⟩⟩
  · rintro ⟨m, hm, htooDeep⟩
    exact hnot pos (List.mem_singleton.mp hm ▸ htooDeep)

/-- A moment that ends with an error is counted, if it is that of a call which is too deep exactly
where it was one. -/
theorem of_act_failed {deed : Deed} {m : Eval α} {e : EvalError} {st' : State}
    (hmoment : Moment.Counted base ⟨deed, running, held, st⟩) (hfailed : m st = .failed e st')
    (hfloor : floor ≤ st'.depth)
    (htooDeep : ∀ pos, e = .callDepthExceeded pos ↔
      Moment.IsTooDeep pos ⟨deed, running, held, st⟩) :
    Told.Counted base floor after P (Watched.act deed m running held st) := by
  rw [Watched.act, hfailed]
  refine ⟨⟨[_], [], rfl, List.forall_mem_singleton.mpr hmoment, by simp⟩, ?_, ?_, ?_, fun pos => ?_⟩
  · rintro _ _ ⟨⟩
  · rintro _ _ ⟨⟩
    exact hfloor
  · rintro ⟨⟩
  · constructor
    · rintro ⟨_, ⟨⟩⟩
      exact ⟨_, List.mem_singleton_self _, (htooDeep pos).mp rfl⟩
    · rintro ⟨m, hm, hdeep⟩
      obtain rfl := (htooDeep pos).mpr (List.mem_singleton.mp hm ▸ hdeep)
      exact ⟨st', rfl⟩

/-- Before a result there is no error, so nothing was taken down. -/
theorem moments_of_done {told : Told α} (h : Told.Counted base floor after P told) {a : α}
    {out : State} (hdone : told.2 = .done a out) : ∀ m ∈ told.1, m.Counted base := by
  obtain ⟨before, behind, hmoments, hbefore, -, hbehind⟩ := h.moments
  cases behind with
  | nil =>
    rw [hmoments, List.append_nil]
    exact hbefore
  | cons m more =>
    obtain ⟨e, st, hfailed⟩ := hbehind (List.cons_ne_nil _ _)
    rw [hdone] at hfailed
    cases hfailed

/-- Parts in a row are counted if each is. -/
theorem bind {first : Watched α} {next : α → Watched β}
    (hfirst : Told.Counted base floor after P (first running held st)) (hfloor : floor ≤ inner)
    (hnext : ∀ a mid, mid.depth = after → P a →
      Told.Counted base inner last P' (next a running held mid)) :
    Told.Counted base floor last P' ((first >>= next) running held st) := by
  rw [Watched.bind_apply]
  cases hr : (first running held st).2 with
  | done a mid =>
    obtain ⟨hdepth, ha⟩ := hfirst.done a mid hr
    have hthen := hnext a mid hdepth ha
    have hnone (pos : Position) : ¬ ∃ m ∈ (first running held st).1, m.IsTooDeep pos := by
      rw [← hfirst.tooDeep pos, hr]
      simp
    obtain ⟨before, behind, hmoments, hbefore, hbehind⟩ := hthen.moments
    dsimp only
    constructor
    · refine ⟨(first running held st).1 ++ before, behind, ?_, fun m hm => ?_, hbehind⟩
      · rw [hmoments, List.append_assoc]
      · exact (List.mem_append.mp hm).elim (hfirst.moments_of_done hr m) (hbefore m)
    · exact hthen.done
    · exact fun e st' h => Nat.le_trans hfloor (hthen.failed e st' h)
    · exact hthen.not_crashed
    · intro pos
      rw [hthen.tooDeep pos]
      simp only [List.mem_append, or_and_right, exists_or, hnone pos, false_or]
  | failed e mid =>
    have hmoments := hfirst.moments
    have hdeep := hfirst.tooDeep
    have hfailed := hfirst.failed
    rw [hr] at hmoments hdeep hfailed
    obtain ⟨before, behind, heq, hbefore, hbehind, -⟩ := hmoments
    constructor
    · exact ⟨before, behind, heq, hbefore, hbehind, fun _ => ⟨e, mid, rfl⟩⟩
    · rintro b st' ⟨⟩
    · rintro e' st' ⟨⟩
      exact hfailed e mid rfl
    · rintro ⟨⟩
    · intro pos
      rw [← hdeep pos]
      simp
  | unfinished =>
    have hmoments := hfirst.moments
    have hdeep := hfirst.tooDeep
    rw [hr] at hmoments hdeep
    obtain ⟨before, behind, heq, hbefore, hbehind, hnone⟩ := hmoments
    constructor
    · refine ⟨before, behind, heq, hbefore, hbehind, fun h => ?_⟩
      obtain ⟨_, _, hfailed⟩ := hnone h
      cases hfailed
    · rintro b st' ⟨⟩
    · rintro e' st' ⟨⟩
    · rintro ⟨⟩
    · intro pos
      rw [← hdeep pos]
      simp
  | crashed => exact absurd hr hfirst.not_crashed

/-- The body of a function is counted together with the moment at which the function is left, which
gives its level back. -/
theorem thenLeave {c : Closure} {body : Watched Val} {depth : Nat} {P : Val → Prop}
    (hdepth : depth = base + running.length) (hle : depth < maxCallDepth)
    (h : Told.Counted base (depth + 1) (depth + 1) P (body (c :: running) held st)) :
    Told.Counted base depth depth P (Watched.thenLeave body (c :: running) held st) := by
  have hlevel : depth + 1 = base + (c :: running).length := by
    rw [hdepth, List.length_cons, Nat.add_assoc]
  unfold Watched.thenLeave
  cases hr : (body (c :: running) held st).2 with
  | done v out =>
    obtain ⟨hout, hv⟩ := h.done v out hr
    have hentered : out.depth ≠ 0 := by omega
    have hleave : Moment.Counted base ⟨.leave, c :: running, v :: held, out⟩ :=
      ⟨by simp, hout.trans hlevel, hout ▸ hle, fun _ => List.cons_ne_nil _ _⟩
    have hdeep := h.tooDeep
    rw [hr] at hdeep
    dsimp only
    rw [hr, Outcome.leave, if_neg hentered]
    refine ⟨⟨_, [], (List.append_nil _).symm, ?_, by simp⟩, ?_, by rintro _ _ ⟨⟩, by simp,
      fun pos => ?_⟩
    · intro m hm
      rcases List.mem_append.mp hm with hm | hm
      · exact h.moments_of_done hr m hm
      · exact List.mem_singleton.mp hm ▸ hleave
    · rintro _ _ ⟨⟩
      exact ⟨by simp [hout], hv⟩
    · have hbody := hdeep pos
      simp only [reduceCtorEq, exists_false, false_iff, not_exists, not_and] at hbody ⊢
      intro m hm htooDeep
      rcases List.mem_append.mp hm with hm | hm
      · exact hbody m hm htooDeep
      · obtain ⟨_, _, hdeed, -⟩ := htooDeep
        rw [List.mem_singleton.mp hm] at hdeed
        cases hdeed
  | failed e out =>
    have hout : depth + 1 ≤ out.depth := h.failed e out hr
    have hentered : out.depth ≠ 0 := by omega
    have hunwind : Moment.Unwinds base ⟨.unwind, c :: running, held, out⟩ :=
      ⟨rfl, List.cons_ne_nil _ _, hlevel ▸ hout⟩
    have hdeep := h.tooDeep
    rw [hr] at hdeep
    obtain ⟨before, behind, hmoments, hbefore, hbehind, -⟩ := h.moments
    dsimp only
    rw [hr, Outcome.leave, if_neg hentered]
    refine ⟨⟨before, behind ++ [⟨.unwind, c :: running, held, out⟩], ?_, hbefore, ?_,
      fun _ => ⟨_, _, rfl⟩⟩, by rintro _ _ ⟨⟩, ?_, by simp, fun pos => ?_⟩
    · rw [hmoments, List.append_assoc]
      rfl
    · intro m hm
      rcases List.mem_append.mp hm with hm | hm
      · exact hbehind m hm
      · exact List.mem_singleton.mp hm ▸ hunwind
    · rintro _ _ ⟨⟩
      show depth ≤ out.depth - 1
      omega
    · have hbody := hdeep pos
      have hlast : ¬ Moment.IsTooDeep pos ⟨.unwind, c :: running, held, out⟩ := by
        rintro ⟨_, _, ⟨⟩, -⟩
      simp only [Watched.leaving, List.mem_append, List.mem_singleton, or_and_right, exists_or,
        exists_eq_left, hlast, or_false, ← hbody]
      simp
  | unfinished =>
    have hmoments := h.moments
    have hdeep := h.tooDeep
    rw [hr] at hmoments hdeep
    have hsame :
        (body (c :: running) held st).1 ++ Watched.leaving (c :: running) held .unfinished =
          (body (c :: running) held st).1 := List.append_nil _
    dsimp only
    rw [hr, hsame]
    exact ⟨hmoments, by rintro _ _ ⟨⟩, by rintro _ _ ⟨⟩, by simp [Outcome.leave], hdeep⟩
  | crashed => exact absurd hr h.not_crashed

end Told.Counted

namespace Watched

variable {α β : Type} {P : α → Prop} {P' : β → Prop}

theorem Counts.pure {a : α} (ha : P a) : (Pure.pure a : Watched α).Counts P :=
  fun _ _ _ _ _ _ => .of_done rfl ha

theorem Counts.bind {m : Watched α} {next : α → Watched β} (hm : m.Counts P)
    (hnext : ∀ a, P a → (next a).Counts P') : (m >>= next).Counts P' := by
  intro base running held st hst hle
  apply (hm base running held st hst hle).bind (Nat.le_refl _)
  intro a mid hmid ha
  have hcounted := hnext a ha base running held mid (hmid.trans hst) (hmid ▸ hle)
  rwa [hmid] at hcounted

/-- An effect that is no call is counted if it leaves the depth alone. -/
theorem Counts.act (deed : Deed) (hcall : ∀ c args pos, deed ≠ .call c args pos)
    (hleave : deed ≠ .leave) (hunwind : deed ≠ .unwind) {m : Eval α} (hm : ∀ st,
      (∃ a st', m st = .done a st' ∧ st'.depth = st.depth ∧ P a) ∨
      ∃ e st', m st = .failed e st' ∧ st'.depth = st.depth ∧
        ∀ pos, e ≠ .callDepthExceeded pos) :
    (act deed m).Counts P := by
  intro base running held st hst hle
  have hmoment : Moment.Counted base ⟨deed, running, held, st⟩ :=
    ⟨hunwind, hst, hle, fun h => absurd h hleave⟩
  have hnot (pos : Position) : ¬ Moment.IsTooDeep pos ⟨deed, running, held, st⟩ := by
    rintro ⟨c, args, hdeed, -⟩
    exact hcall c args pos hdeed
  rcases hm st with ⟨a, st', hdone, hdepth, ha⟩ | ⟨e, st', hfailed, hdepth, hne⟩
  · exact .of_act_done hmoment hdone hdepth ha hnot
  · exact .of_act_failed hmoment hfailed (Nat.le_of_eq hdepth.symm) fun pos =>
      iff_of_false (hne pos) (hnot pos)

/-- A call is entered at one level more, unless there is none or no step is left. -/
theorem enterCall_counted {base : Nat} {c : Closure} {args : List Val} (pos : Position)
    (hcount : args.length = c.params.length) {running : List Closure} (held : List Val) {st : State}
    (hst : st.depth = base + running.length) (hle : st.depth ≤ maxCallDepth) :
    Told.Counted base st.depth (st.depth + 1) (fun _ => st.depth < maxCallDepth)
      (act (.call c args pos) (Eval.enterCall pos) running held st) := by
  have hmoment : Moment.Counted base ⟨.call c args pos, running, held, st⟩ :=
    ⟨by simp, hst, hle, by simp⟩
  by_cases hroom : st.depth < maxCallDepth
  · -- the level is taken before the step is charged, and the step may be one too many
    have henter : Eval.enterCall pos st = Eval.step pos { st with depth := st.depth + 1 } :=
      if_neg (Nat.not_le.mpr hroom)
    have hnot (pos' : Position) :
        ¬ Moment.IsTooDeep pos' ⟨.call c args pos, running, held, st⟩ := by
      rintro ⟨_, _, -, -, hmax⟩
      exact Nat.ne_of_lt hroom hmax
    rcases Eval.Calm.step pos { st with depth := st.depth + 1 } with
      ⟨a, st', hdone, -, hdepth⟩ | ⟨e, st', hfailed, -, hdepth, hne⟩
    · exact .of_act_done hmoment (henter.trans hdone) hdepth hroom hnot
    · have henough : st.depth ≤ st'.depth := by
        rw [hdepth]
        exact Nat.le_succ _
      exact .of_act_failed hmoment (henter.trans hfailed) henough fun pos' =>
        iff_of_false (hne pos') (hnot pos')
  · have henter : Eval.enterCall pos st = .failed (.callDepthExceeded pos) st :=
      if_pos (Nat.le_of_not_lt hroom)
    have hmax : st.depth = maxCallDepth := Nat.le_antisymm hle (Nat.le_of_not_lt hroom)
    refine .of_act_failed hmoment henter (Nat.le_refl _) fun pos' => ⟨?_, ?_⟩
    · rintro ⟨⟩
      exact ⟨c, args, rfl, hcount, hmax⟩
    · rintro ⟨_, _, hdeed, -⟩
      cases hdeed
      rfl

/-- A call takes a level for as long as its body is executed. -/
theorem Counts.insideCall {c : Closure} {args : List Val} (pos : Position)
    (hcount : args.length = c.params.length) {body : Watched Val}
    (hbody : body.Counts fun _ => True) :
    (insideCall c args pos body).Counts fun _ => True := by
  intro base running held st hst hle
  have henter : Told.Counted base st.depth (st.depth + 1) (fun _ => st.depth < maxCallDepth)
      (Watched.holding args (Watched.act (.call c args pos) (Eval.enterCall pos)) running held
        st) :=
    enterCall_counted pos hcount (args ++ held) hst hle
  apply henter.bind (Nat.le_refl _)
  intro _ inside hinside hroom
  have hrunning : inside.depth = base + (c :: running).length := by
    rw [hinside, hst]
    rfl
  have hcounted := hbody base (c :: running) held inside hrunning (hinside ▸ hroom)
  rw [hinside] at hcounted
  exact hcounted.thenLeave hst hroom

/-- All that a run does is counted, whatever functions stand in its trees. -/
theorem counts_walk :
    Walk (fun _ _ => True) (fun _ _ => True) (fun _ _ => True) (fun _ _ => True)
      fun (_ : Unit) _ w P => w.Counts (P ()) where
  result := Counts.pure
  bind hm hnext := hm.bind fun a ha => hnext () a trivial ha
  holding _ hm := fun base running held => hm base running (_ ++ held)
  calm {_ _ m P} hm hP := by
    refine .act .other (by simp) (by simp) (by simp) fun st => ?_
    rcases hm st with ⟨a, st', hdone, -, hdepth⟩ | ⟨e, st', hfailed, -, hdepth, hne⟩
    · exact .inl ⟨a, st', hdone, hdepth, hP a st st' hdone⟩
    · exact .inr ⟨e, st', hfailed, hdepth, hne⟩
  readName {_ f} _ pos name := by
    refine .act .other (by simp) (by simp) (by simp) fun st => ?_
    rcases Eval.Calm.readName f pos name st with
      ⟨a, st', hdone, -, hdepth⟩ | ⟨e, st', hfailed, -, hdepth, hne⟩
    · exact .inl ⟨a, st', hdone, hdepth, trivial⟩
    · exact .inr ⟨e, st', hfailed, hdepth, hne⟩
  writeName _ _ name :=
    .act .other (by simp) (by simp) (by simp) fun st => .inl ⟨(), _, rfl, rfl, trivial⟩
  declare _ _ name params :=
    .act (.declare ..) (by simp) (by simp) (by simp) fun st => .inl ⟨(), _, rfl, rfl, trivial⟩
  newFrame _ _ :=
    .act .other (by simp) (by simp) (by simp) fun st => .inl ⟨_, _, rfl, rfl, trivial⟩
  unfinished := fun _ _ _ _ _ _ => .of_unfinished
  insideCall pos _ _ hcount hbody := .insideCall pos hcount (hbody () trivial)
  keeps _ _ := trivial
  keeps_frame _ _ := trivial
  keeps_literal _ _ := trivial
  scope _ := trivial
  plain _ := trivial
  literal _ _ := trivial
  functions _ := Stmt.allFunctionsAre_of_forall (fun _ => trivial) _

end Watched

/-! ## Programs -/

/-- All that a program does is counted from zero. -/
theorem Interpreter.moments_counted (fuel : Nat) (it : Interpreter) (program : List Stmt) :
    Told.Counted 0 0 0 (fun _ => True) (watchProgram fuel program [] [] it.start) := by
  have hfunctions := Stmt.allFunctionsAre_of_forall (fun _ => trivial) program
  have hwalk := watchProgram_walk Watched.counts_walk (w := ()) fuel hfunctions trivial
  have hcounted := hwalk 0 [] [] it.start rfl (Nat.zero_le _)
  exact { hcounted with done := fun v st h => ⟨(hcounted.done v st h).1, trivial⟩ }

/-- The error with which a run has ended. -/
def Outcome.error? {α : Type} : Outcome α → Option EvalError
  | .failed e _ => some e
  | _ => none

theorem Outcome.error?_eq_some {α : Type} {o : Outcome α} {e : EvalError} :
    o.error? = some e ↔ ∃ st, o = .failed e st := by
  cases o <;> simp [error?]

/-- Where flushes do not fail, the error of a program is that of its run. -/
theorem Interpreter.executeWithin_error_iff {it : Interpreter} (hflush : it.sink.flushFails = false)
    {fuel : Nat} {program : List Stmt} {e : EvalError} :
    (∃ after, it.executeWithin fuel program = some (.error e, after)) ↔
      ∃ st, runProgram fuel program it.start = .failed e st := by
  constructor
  · rintro ⟨after, h⟩
    obtain ⟨st, hanswer, -, -⟩ := answer_of_executeWithin hflush h
    rcases Outcome.answer?_eq_some hanswer with ⟨v, -, hv⟩ | ⟨e', hfailed, he⟩
    · cases hv
    · cases he
      exact ⟨st, hfailed⟩
  · rintro ⟨st, h⟩
    have hanswer : (runProgram fuel program it.start).answer? = some (.error e, st) := by
      rw [h]
      rfl
    exact ⟨_, executeWithin_of_answer hflush hanswer⟩

/-- **Calls are accounted for.** Whatever the program, parsed or built by hand with functions among
its values, the interpreter and its step limit: at every moment of a run before an error, the depth
is the number of functions whose bodies are being executed and at most 200. Behind an error, and only
there, the functions that it takes down are left. Wherever a function is left, before an error or
behind one, that number is not zero and the depth is no less, so that no part of a program, from any
state, is to leave a function while none is running. Whatever expression is evaluated or statement
executed to an end without error, with any frames and at any depth, ends at the depth at which it
began. The error that a call is too deep is that of a run exactly if some call of a function with as
many arguments as it takes, all evaluated, starts at a depth of 200, and is reported at that call;
where flushes do not fail it is then the error of the interpreter, too. -/
theorem call_depth_accounts (fuel : Nat) (it : Interpreter) (program : List Stmt) :
    (∃ before behind, it.moments fuel program = before ++ behind ∧
      (∀ m ∈ before, m.deed ≠ .unwind ∧ m.st.depth = m.running.length ∧
        m.st.depth ≤ maxCallDepth) ∧
      (∀ m ∈ behind, m.deed = .unwind) ∧
      (behind ≠ [] → ∃ e st, runProgram fuel program it.start = .failed e st)) ∧
    (∀ m ∈ it.moments fuel program, m.deed = .leave ∨ m.deed = .unwind →
      0 < m.running.length ∧ m.running.length ≤ m.st.depth) ∧
    (∀ st, runProgram fuel program st ≠ .crashed) ∧
    (∀ f st,
      (∀ e : Expr, e.eval (callWithin fuel) f st ≠ .crashed ∧
        ∀ v st', e.eval (callWithin fuel) f st = .done v st' → st'.depth = st.depth) ∧
      ∀ s : Stmt, s.exec (callWithin fuel) (loopWithin fuel) f st ≠ .crashed ∧
        ∀ flow st', s.exec (callWithin fuel) (loopWithin fuel) f st = .done flow st' →
          st'.depth = st.depth) ∧
    ∀ pos,
      ((∃ st, runProgram fuel program it.start = .failed (.callDepthExceeded pos) st) ↔
        ∃ m ∈ it.moments fuel program, m.IsTooDeep pos) ∧
      (it.sink.flushFails = false →
        ((∃ after, it.executeWithin fuel program =
            some (.error (.callDepthExceeded pos), after)) ↔
          ∃ m ∈ it.moments fuel program, m.IsTooDeep pos)) := by
  have hshows := watchProgram_shows fuel program [] [] it.start
  have hcounted := it.moments_counted fuel program
  obtain ⟨before, behind, hmoments, hbefore, hbehind, herror⟩ := hcounted.moments
  have htooDeep := hcounted.tooDeep
  rw [hshows] at herror htooDeep
  have hmoments : it.moments fuel program = before ++ behind := hmoments
  refine ⟨⟨before, behind, hmoments, fun m hm => ?_, fun m hm => (hbehind m hm).behind_error,
    herror⟩, fun m hm hleaves => ?_, fun st => (runProgram_built fuel program).ne_crashed st,
    fun f st => ⟨fun e => ?_, fun s => ?_⟩, fun pos => ⟨htooDeep pos, fun hflush => ?_⟩⟩
  · have hm := hbefore m hm
    exact ⟨hm.before_error, hm.depth_eq.trans (Nat.zero_add _), hm.depth_le⟩
  · rw [hmoments, List.mem_append] at hm
    rcases hm with hm | hm
    · have hm := hbefore m hm
      have hleave := hleaves.resolve_right hm.before_error
      exact ⟨List.length_pos_iff.mpr (hm.leaves hleave),
        Nat.le_of_eq (hm.depth_eq.trans (Nat.zero_add _)).symm⟩
    · have hm := hbehind m hm
      exact ⟨List.length_pos_iff.mpr hm.leaves, Nat.zero_add m.running.length ▸ hm.le_depth⟩
  · have hbuilt := Expr.eval_closed Eval.Built.closed (rules_built fuel).1 f e
    exact ⟨hbuilt.ne_crashed st, fun v st' h => hbuilt.depth_eq h⟩
  · obtain ⟨hcall, hloop⟩ := rules_built fuel
    have hbuilt := Stmt.exec_closed Eval.Built.closed hcall hloop f s
    exact ⟨hbuilt.ne_crashed st, fun flow st' h => hbuilt.depth_eq h⟩
  · rw [Interpreter.executeWithin_error_iff hflush]
    exact htooDeep pos

/-- A function that calls itself without end is called once too often. -/
theorem call_depth_accounts_for_runaway_recursion :
    let again : Expr := .call ⟨1, 19⟩ (.var ⟨1, 18⟩ "f") []
    let program : List Stmt := [.function "f" [] [.returnValue (some again)],
      .expr (.call ⟨2, 2⟩ (.var ⟨2, 1⟩ "f") [])]
    let it := Interpreter.new .unlimited none
    (∃ after, it.executeWithin 201 program =
      some (.error (.callDepthExceeded ⟨1, 19⟩), after)) ∧
    ∃ m ∈ it.moments 201 program, m.running.length = 200 ∧
      ∃ c args, m.deed = .call c args ⟨1, 19⟩ := by
  intro again program it
  have herror : (runProgram 201 program it.start).error? = some (.callDepthExceeded ⟨1, 19⟩) := by
    decide +kernel
  obtain ⟨⟨before, behind, hmoments, hbefore, hbehind, -⟩, -, -, -, htooDeep⟩ :=
    call_depth_accounts 201 it program
  obtain ⟨hrun, hexecute⟩ := htooDeep ⟨1, 19⟩
  obtain ⟨m, hm, c, args, hdeed, hcount, hmax⟩ := hrun.mp (Outcome.error?_eq_some.mp herror)
  have hrunning : m.running.length = 200 := by
    rcases List.mem_append.mp (hmoments ▸ hm) with hm | hm
    · exact (hbefore m hm).2.1.symm.trans hmax
    · cases hdeed.symm.trans (hbehind m hm)
  refine ⟨(hexecute rfl).mpr ⟨m, hm, c, args, hdeed, hcount, hmax⟩, m, hm, hrunning, c, args, ?_⟩
  exact hdeed

end TwinScript
