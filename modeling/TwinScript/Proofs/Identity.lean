import TwinScript.Proofs.Eval.Growth
import TwinScript.Proofs.Eval.Moments
import Mathlib.Logic.ExistsUnique

/-!
# The identity of functions

Every execution of a declaration makes a function, and two functions are equal if they were made by
the same one. Programs make no functions otherwise: where functions stand in a tree as values, which
no text writes, they are taken to be ones that were made before. Here the functions that have been
made so far are kept in a list, in the order in which they were made, over all that has happened to
an interpreter (`Interpreter.History`). What a run does at every moment concerns only functions of
that list: those that frames bind, those among the intermediate results, and those whose bodies are
being executed.

* `functionsMade`: the functions that were made in a row of moments.
* `Watched.traces_walk`: no part of a program has a function that was not made.
* `functions_keep_identity`: which functions are equal, at every moment and between runs.
-/

namespace TwinScript

/-! ## The functions that were made -/

/-- The function that is made at the moment, if a declaration is executed. -/
def Moment.makes? (m : Moment) : Option Closure :=
  match m.deed with
  | .declare f name params body => some ⟨m.st.heap.closures, name, params, body, f⟩
  | _ => none

/-- The functions that were made in a row of moments, one for each declaration executed. -/
def functionsMade (moments : List Moment) : List Closure := moments.filterMap Moment.makes?

@[simp] theorem functionsMade_append (first second : List Moment) :
    functionsMade (first ++ second) = functionsMade first ++ functionsMade second :=
  List.filterMap_append

/-- Some frame binds a name to the function. -/
def Heap.BindsFunction (h : Heap) (c : Closure) : Prop :=
  ∃ f name, h.here? f name = some (.closure c)

/-- The function exists at the moment: a frame binds it, it is kept as an intermediate result, or
its body is being executed. -/
def Moment.HasFunction (m : Moment) (c : Closure) : Prop :=
  m.st.heap.BindsFunction c ∨ .closure c ∈ m.held ∨ c ∈ m.running

/-- Of the functions that were `made`, in this order, those that exist are told apart by when they
were made. -/
structure Coherent (made : List Closure) (Exists : Closure → Prop) : Prop where
  made_once : ∀ c, Exists c → ∃! k : Nat, made[k]? = some c
  same_iff : ∀ c d, Exists c → Exists d →
    ((Val.closure c).same (.closure d) ↔ ∃ k : Nat, made[k]? = some c ∧ made[k]? = some d)
  agree : ∀ c d, Exists c → Exists d → (Val.closure c).same (.closure d) →
    c.name = d.name ∧ c.params = d.params ∧ c.body = d.body ∧ c.scope = d.scope

/-- Functions are numbered as they are made. -/
def Numbered (made : List Closure) : Prop := ∀ (k : Nat) (c : Closure), made[k]? = some c → c.id = k

theorem Numbered.coherent {made : List Closure} (hmade : Numbered made) {Exists : Closure → Prop}
    (hfrom : ∀ c, Exists c → c ∈ made) : Coherent made Exists := by
  have hplace (c : Closure) (hc : Exists c) : made[c.id]? = some c := by
    obtain ⟨k, hk⟩ := List.mem_iff_getElem?.mp (hfrom c hc)
    rw [hmade k c hk]
    exact hk
  have heq (c d : Closure) (hc : Exists c) (hd : Exists d)
      (hsame : (Val.closure c).same (.closure d)) : c = d := by
    have hid : c.id = d.id := eq_of_beq hsame
    have hboth := hplace c hc
    rw [hid, hplace d hd] at hboth
    exact (Option.some.inj hboth).symm
  refine ⟨fun c hc => ⟨c.id, hplace c hc, fun k hk => (hmade k c hk).symm⟩,
    fun c d hc hd => ⟨fun hsame => ?_, ?_⟩, fun c d hc hd hsame => ?_⟩
  · obtain rfl := heq c d hc hd hsame
    exact ⟨c.id, hplace c hc, hplace c hc⟩
  · rintro ⟨k, hkc, hkd⟩
    obtain rfl := Option.some.inj (hkc.symm.trans hkd)
    exact beq_self_eq_true c.id
  · obtain rfl := heq c d hc hd hsame
    exact ⟨rfl, rfl, rfl, rfl⟩

/-! ## Where functions come from -/

/-- If the value is a function, it was made. -/
def Val.IsFrom (made : List Closure) (v : Val) : Prop := ∀ c, v = .closure c → c ∈ made

/-- If the value is a function, it was made, and so were those that stand in its body. -/
def Val.IsOwn (made : List Closure) (v : Val) : Prop :=
  ∀ c, v = .closure c → c ∈ made ∧ Stmt.AllFunctionsAre (· ∈ made) c.body

/-- The functions that were `made` are all that were numbered, no others stand in their bodies, and
the frames bind no others. -/
structure Heap.FunctionsFrom (made : List Closure) (h : Heap) : Prop where
  count : h.closures = made.length
  numbered : Numbered made
  bodies : ∀ c ∈ made, Stmt.AllFunctionsAre (· ∈ made) c.body
  bound : ∀ c, h.BindsFunction c → c ∈ made

/-- Only functions that were `made` exist at the moment. -/
structure Moment.FunctionsFrom (made : List Closure) (m : Moment) : Prop where
  heap : m.st.heap.FunctionsFrom made
  running : ∀ c ∈ m.running, c ∈ made
  held : ∀ v ∈ m.held, v.IsFrom made

theorem Val.IsFrom.mono {made later : List Closure} (hlater : made <+: later) {v : Val}
    (hv : v.IsFrom made) : v.IsFrom later := fun c hc => hlater.subset (hv c hc)

theorem Val.IsOwn.isFrom {made : List Closure} {v : Val} (hv : v.IsOwn made) : v.IsFrom made :=
  fun c hc => (hv c hc).1

theorem Val.IsOwn.mono {made later : List Closure} (hlater : made <+: later) {v : Val}
    (hv : v.IsOwn made) : v.IsOwn later :=
  fun c hc => (hv c hc).imp (fun h => hlater.subset h) (.mono fun _ h => hlater.subset h)

namespace Heap.FunctionsFrom

variable {made : List Closure} {h : Heap}

theorem define (hh : h.FunctionsFrom made) (f : FrameId) (name : String) {v : Val}
    (hv : v.IsFrom made) : (h.define f name v).FunctionsFrom made := by
  refine ⟨hh.count, hh.numbered, hh.bodies, ?_⟩
  rintro c ⟨g, other, hc⟩
  rcases here?_define_cases hc with hdefined | hbefore
  · exact hv c hdefined.symm
  · exact hh.bound c ⟨g, other, hbefore⟩

theorem child (hh : h.FunctionsFrom made) (f : FrameId) {bs : Bindings}
    (hbs : ∀ name v, bs.get? name = some v → v.IsFrom made) :
    (h.child f bs).2.FunctionsFrom made := by
  refine ⟨hh.count, hh.numbered, hh.bodies, ?_⟩
  rintro c ⟨g, name, hc⟩
  rw [here?_child] at hc
  split at hc
  · exact hbs name _ hc c rfl
  · exact hh.bound c ⟨g, name, hc⟩

/-- The next function gets the next number. -/
theorem declare (hh : h.FunctionsFrom made) (f : FrameId) (name : String) (params : List String)
    {body : List Stmt} (hbody : Stmt.AllFunctionsAre (· ∈ made) body) :
    (h.declare f name params body).FunctionsFrom
      (made ++ [⟨h.closures, name, params, body, f⟩]) := by
  let c : Closure := ⟨h.closures, name, params, body, f⟩
  have hlater (d : Closure) (hd : d ∈ made) : d ∈ made ++ [c] := List.mem_append_left _ hd
  have hcounted : Heap.FunctionsFrom (made ++ [c]) { h with closures := h.closures + 1 } := by
    refine ⟨?_, fun k d hd => ?_, fun d hd => ?_, fun d hd => hlater d (hh.bound d hd)⟩
    · rw [List.length_append, ← hh.count]
      rfl
    · rcases Nat.lt_or_ge k made.length with hk | hk
      · rw [List.getElem?_append_left hk] at hd
        exact hh.numbered k d hd
      · rw [List.getElem?_append_right hk, List.getElem?_singleton] at hd
        split at hd
        · next hlast =>
          cases hd
          have hlength := hh.count
          show h.closures = k
          omega
        · cases hd
    · rcases List.mem_append.mp hd with hd | hd
      · exact (hh.bodies d hd).mono hlater
      · cases List.mem_singleton.mp hd
        exact hbody.mono hlater
  exact hcounted.define f name fun d hd => by
    cases hd
    exact List.mem_append_right _ (List.mem_singleton_self c)

end Heap.FunctionsFrom

/-- Equal to none that exists: a function with the next number. -/
theorem Heap.FunctionsFrom.same_eq_false {made : List Closure} {h : Heap}
    (hh : h.FunctionsFrom made) {d : Closure} (hd : d ∈ made) (name : String)
    (params : List String) (body : List Stmt) (f : FrameId) :
    (Val.closure ⟨h.closures, name, params, body, f⟩).same (.closure d) = false := by
  obtain ⟨k, hk⟩ := List.mem_iff_getElem?.mp hd
  have hless : k < made.length := (List.getElem?_eq_some_iff.mp hk).1
  have hne : h.closures ≠ d.id := by
    rw [hh.count, hh.numbered k d hk]
    exact Nat.ne_of_gt hless
  exact beq_false_of_ne hne

theorem Moment.FunctionsFrom.mem {made : List Closure} {m : Moment} (hm : m.FunctionsFrom made)
    {c : Closure} (hc : m.HasFunction c) : c ∈ made := by
  rcases hc with hbound | hheld | hrunning
  · exact hm.heap.bound c hbound
  · exact hm.held _ hheld c rfl
  · exact hm.running c hrunning

/-! ## Tracing functions through a run -/

/-- At each of the moments, one after the other, only functions exist that were made before. -/
def MomentsFrom (made : List Closure) (moments : List Moment) : Prop :=
  ∀ before m after, moments = before ++ m :: after → m.FunctionsFrom (made ++ functionsMade before)

theorem MomentsFrom.nil (made : List Closure) : MomentsFrom made [] := by simp [MomentsFrom]

theorem MomentsFrom.singleton {made : List Closure} {m : Moment} (hm : m.FunctionsFrom made) :
    MomentsFrom made [m] := by
  intro before moment after hsplit
  cases before with
  | nil =>
    cases hsplit
    exact (List.append_nil made).symm ▸ hm
  | cons first rest => simp at hsplit

/-- What the first moments have made is there at the others. -/
theorem MomentsFrom.append {made : List Closure} {first second : List Moment}
    (hfirst : MomentsFrom made first)
    (hsecond : MomentsFrom (made ++ functionsMade first) second) :
    MomentsFrom made (first ++ second) := by
  intro before moment after hsplit
  rcases List.append_eq_append_iff.mp hsplit with ⟨front, rfl, hback⟩ | ⟨back, hfront, hback⟩
  · rw [functionsMade_append, ← List.append_assoc]
    exact hsecond front moment after hback
  · cases back with
    | nil =>
      rw [List.append_nil] at hfront
      have hbegins := hsecond [] moment after hback.symm
      rw [show functionsMade [] = [] from rfl, List.append_nil] at hbegins
      exact hfront ▸ hbegins
    | cons moment' back =>
      cases hback
      exact hfirst before moment back hfront

/-- At every moment of a part of a run only functions exist that were made before, and so do they in
the end. -/
structure Told.Traced {α : Type} (made : List Closure) (P : List Closure → α → Prop)
    (told : Told α) : Prop where
  moments : MomentsFrom made told.1
  ends : ∀ st, told.2.state? = some st → st.heap.FunctionsFrom (made ++ functionsMade told.1)
  done : ∀ a st, told.2 = .done a st → P (made ++ functionsMade told.1) a

/-- The watched part, which begins where the functions in `made` have been made, is traced. -/
def Watched.Traces {α : Type} (made : List Closure) (w : Watched α)
    (P : List Closure → α → Prop) : Prop :=
  ∀ running held st, st.heap.FunctionsFrom made → (∀ c ∈ running, c ∈ made) →
    (∀ v ∈ held, v.IsFrom made) → Told.Traced made P (w running held st)

namespace Watched

variable {α β : Type} {made : List Closure} {P : List Closure → α → Prop}
  {P' : List Closure → β → Prop}

theorem Traces.result {a : α} (ha : P made a) : (Pure.pure a : Watched α).Traces made P := by
  intro running held st hst _ _
  refine ⟨.nil made, ?_, ?_⟩
  · rintro _ ⟨⟩
    exact (List.append_nil made).symm ▸ hst
  · rintro _ _ ⟨⟩
    exact (List.append_nil made).symm ▸ ha

theorem Traces.unfinished : (Watched.unfinished : Watched α).Traces made P := by
  intro running held st _ _ _
  refine ⟨.nil made, ?_, ?_⟩
  · rintro _ ⟨⟩
  · rintro _ _ ⟨⟩

theorem Traces.bind {m : Watched α} {next : α → Watched β} (hm : m.Traces made P)
    (hnext : ∀ later a, made <+: later → P later a → (next a).Traces later P') :
    (m >>= next).Traces made P' := by
  intro running held st hst hrunning hheld
  obtain ⟨hmoments, hends, hdone⟩ := hm running held st hst hrunning hheld
  rw [bind_apply]
  cases hr : (m running held st).2 with
  | done a mid =>
    let later := made ++ functionsMade (m running held st).1
    have hlater : made <+: later := List.prefix_append _ _
    obtain ⟨hmoments', hends', hdone'⟩ := hnext later a hlater (hdone a mid hr) running held mid
      (hends mid (by rw [hr]; rfl)) (fun c hc => hlater.subset (hrunning c hc))
      fun v hv => (hheld v hv).mono hlater
    refine ⟨hmoments.append hmoments', ?_, ?_⟩
    · intro st' hst'
      rw [functionsMade_append, ← List.append_assoc]
      exact hends' st' hst'
    · intro b st' hst'
      rw [functionsMade_append, ← List.append_assoc]
      exact hdone' b st' hst'
  | failed e mid =>
    refine ⟨hmoments, fun st' hst' => ?_, by rintro _ _ ⟨⟩⟩
    exact hends st' (by rw [hr]; exact hst')
  | unfinished | crashed => exact ⟨hmoments, by rintro _ ⟨⟩, by rintro _ _ ⟨⟩⟩

theorem Traces.holding {w : Watched α} {vs : List Val} (hvs : ∀ v ∈ vs, v.IsFrom made)
    (hw : w.Traces made P) : (holding vs w).Traces made P := by
  intro running held st hst hrunning hheld
  exact hw running (vs ++ held) st hst hrunning fun v hv =>
    (List.mem_append.mp hv).elim (hvs v) (hheld v)

theorem Traces.inBody {c : Closure} (hc : c ∈ made) {w : Watched α} (hw : w.Traces made P) :
    (inBody c w).Traces made P := by
  intro running held st hst hrunning hheld
  exact hw (c :: running) held st hst (by simpa using ⟨hc, hrunning⟩) hheld

/-- One moment of a part of a run. -/
theorem Traces.of_act {deed : Deed} {m : Eval α} (hm : ∀ running held st,
    st.heap.FunctionsFrom made →
      let later := made ++ functionsMade [⟨deed, running, held, st⟩]
      (∀ st', (m st).state? = some st' → st'.heap.FunctionsFrom later) ∧
        ∀ a st', m st = .done a st' → P later a) :
    (act deed m).Traces made P := by
  intro running held st hst hrunning hheld
  obtain ⟨hends, hdone⟩ := hm running held st hst
  exact ⟨.singleton ⟨hst, hrunning, hheld⟩, hends, hdone⟩

/-- An effect that makes no function. -/
theorem Traces.act {deed : Deed} (hdeed : ∀ f name params body, deed ≠ .declare f name params body)
    {m : Eval α} (hm : ∀ st, st.heap.FunctionsFrom made →
      (∀ st', (m st).state? = some st' → st'.heap.FunctionsFrom made) ∧
        ∀ a st', m st = .done a st' → P made a) :
    (act deed m).Traces made P := by
  apply Traces.of_act
  intro running held st hst
  have hnone : functionsMade [⟨deed, running, held, st⟩] = [] := by
    cases deed with
    | declare f name params body => exact absurd rfl (hdeed f name params body)
    | _ => rfl
  rw [hnone, List.append_nil]
  exact hm st hst

/-- A function is left with the functions that there are behind its body. -/
theorem Traces.thenLeave {body : Watched Val} (h : body.Traces made fun made v => v.IsOwn made) :
    (thenLeave body).Traces made fun made v => v.IsOwn made := by
  intro running held st hst hrunning hheld
  obtain ⟨hmoments, hends, hdone⟩ := h running held st hst hrunning hheld
  have hlater : made <+: made ++ functionsMade (body running held st).1 := List.prefix_append _ _
  have hrunning := fun c hc => hlater.subset (hrunning c hc)
  have hheld := fun v hv => (hheld v hv).mono hlater
  have hmade : functionsMade (Watched.thenLeave body running held st).1 =
      functionsMade (body running held st).1 := by
    rw [Watched.thenLeave, functionsMade_append]
    cases (body running held st).2 <;> exact List.append_nil _
  refine ⟨hmoments.append ?_, fun out hout => ?_, fun v out hout => ?_⟩
  · cases hr : (body running held st).2 with
    | done v out =>
      have hv := (hdone v out hr).isFrom
      exact .singleton ⟨hends out (by rw [hr]; rfl), hrunning, by simpa using ⟨hv, hheld⟩⟩
    | failed e out => exact .singleton ⟨hends out (by rw [hr]; rfl), hrunning, hheld⟩
    | unfinished | crashed => exact .nil _
  · rw [hmade]
    obtain ⟨inner, hinner, rfl⟩ := Outcome.state?_leave hout
    exact hends inner hinner
  · rw [hmade]
    obtain ⟨inner, hinner, -⟩ := Outcome.of_leave_done hout
    exact hdone v inner hinner

theorem Traces.insideCall {c : Closure} {args : List Val} {body : Watched Val} (pos : Position)
    (hc : c ∈ made) (hargs : ∀ v ∈ args, v.IsFrom made)
    (hbody : ∀ later, made <+: later → body.Traces later fun made v => v.IsOwn made) :
    (insideCall c args pos body).Traces made fun made v => v.IsOwn made := by
  have henter : (Watched.act (.call c args pos) (Eval.enterCall pos)).Traces made
      fun _ _ => True := by
    refine .act (by simp) fun st hst => ⟨fun st' hst' => ?_, fun _ _ _ => trivial⟩
    have hsame : st'.heap = st.heap := by
      unfold Eval.enterCall at hst'
      split at hst'
      · cases hst'
        rfl
      · rw [Eval.step_state hst']
    exact hsame ▸ hst
  apply (henter.holding hargs).bind
  intro inside _ hinside _
  exact .inBody (hinside.subset hc) (hbody inside hinside).thenLeave

/-- No part of a run has a function that was not made before. -/
theorem traces_walk :
    Walk (fun made later : List Closure => made <+: later) (fun _ _ => True)
      (fun made c => c ∈ made) (fun made v => v.IsOwn made) fun made _ w P => w.Traces made P where
  result := Traces.result
  bind := Traces.bind
  holding hvs := Traces.holding fun v hv => (hvs v hv).isFrom
  calm {made _ m P} hm hP := by
    refine .act (by simp) fun st hst => ⟨fun st' hst' => ?_, fun a st' => hP a st st'⟩
    rcases hm st with ⟨a, mid, hdone, hheap, -⟩ | ⟨e, mid, hfailed, hheap, -⟩
    · rw [hdone] at hst'
      cases hst'
      exact hheap ▸ hst
    · rw [hfailed] at hst'
      cases hst'
      exact hheap ▸ hst
  readName _ pos name := by
    refine .act (by simp) fun st hst => ⟨fun st' hst' => ?_, fun v st' hdone c hc => ?_⟩
    · rw [Eval.readName_state hst']
      exact hst
    · rw [hc, Eval.readName] at hdone
      split at hdone
      · next v hget =>
        cases hdone
        obtain ⟨g, -, hv⟩ := Option.bind_eq_some_iff.mp hget
        have hc := hst.bound c ⟨g, name, hv⟩
        exact ⟨hc, hst.bodies c hc⟩
      · cases hdone
  writeName _ hv name := by
    refine .act (by simp) fun st hst => ⟨?_, fun _ _ _ => trivial⟩
    rintro st' ⟨⟩
    show Heap.FunctionsFrom _ (st.heap.bind _ name _)
    rw [Heap.bind_eq]
    exact hst.define _ name hv.isFrom
  declare _ hbody name params := by
    refine .of_act fun running held st hst => ⟨?_, fun _ _ _ => trivial⟩
    rintro st' ⟨⟩
    exact hst.declare _ name params hbody
  newFrame _ hbs := by
    refine .act (by simp) fun st hst => ⟨?_, fun _ _ _ => trivial⟩
    rintro st' ⟨⟩
    exact hst.child _ fun name v hv => (hbs name v hv).isFrom
  unfinished := Traces.unfinished
  insideCall pos hc hargs _ hbody :=
    .insideCall pos (hc _ rfl).1 (fun v hv => (hargs v hv).isFrom) hbody
  keeps hlater hv := hv.mono hlater
  keeps_frame _ _ := trivial
  keeps_literal hlater hc := hlater.subset hc
  scope _ := trivial
  plain hv c hc := absurd hc (hv c)
  literal {_ c} hc hbody d hd := by
    cases hd
    exact ⟨hc, hbody⟩
  functions hc := (hc _ rfl).2

end Watched

/-! ## The life of an interpreter -/

namespace Interpreter

/-- The moments of the program that a text writes, if it writes one. -/
def momentsOf (fuel : Nat) (it : Interpreter) (code : String) : List Moment :=
  match readProgram code with
  | .ok program => it.moments fuel program
  | .error _ => []

/-- What has happened to an interpreter so far, by the moments of all its runs. Texts were run, and
programs in which no functions stand but such as were made before, with any answer; a value was
defined from outside that is no function or one that was made before; and the step limit and the
sink were changed. -/
inductive History : Interpreter → List Moment → Prop where
  | new (sink : Sink) (limit? : Option Nat) : History (new sink limit?) []
  | execute {it after : Interpreter} {past : List Moment} {fuel : Nat} {program : List Stmt}
      {answer : Except EvalError (Option Val)} (hit : History it past)
      (hprogram : Stmt.AllFunctionsAre (· ∈ functionsMade past) program)
      (h : it.executeWithin fuel program = some (answer, after)) :
      History after (past ++ it.moments fuel program)
  | run {it after : Interpreter} {past : List Moment} {fuel : Nat} {code : String}
      {answer : Except ProgramError (Option Val)} (hit : History it past)
      (h : it.runWithin fuel code = some (answer, after)) :
      History after (past ++ it.momentsOf fuel code)
  | defineGlobal {it : Interpreter} {past : List Moment} (hit : History it past) (name : String)
      {v : Val} (hv : v.IsFrom (functionsMade past)) : History (it.defineGlobal name v) past
  | setLimit {it : Interpreter} {past : List Moment} (hit : History it past)
      (limit? : Option Nat) : History { it with limit? } past
  | setSink {it : Interpreter} {past : List Moment} (hit : History it past) (sink : Sink) :
      History { it with sink } past

variable {it after : Interpreter} {past : List Moment}

theorem moments_traced {made : List Closure} (hit : it.heap.FunctionsFrom made) (fuel : Nat)
    {program : List Stmt} (hprogram : Stmt.AllFunctionsAre (· ∈ made) program) :
    Told.Traced made (fun made v? => ∀ v, v? = some v → v.IsFrom made)
      (watchProgram fuel program [] [] it.start) :=
  have htraces : (watchProgram fuel program).Traces made fun made v? =>
      ∀ v, v? = some v → v.IsOwn made :=
    watchProgram_walk Watched.traces_walk fuel hprogram trivial
  have htold := htraces [] [] it.start hit (by simp) (by simp)
  { htold with done := fun v? st h v hv => (htold.done v? st h v hv).isFrom }

/-- Behind a program the functions are those from before and those that it has made. -/
theorem executeWithin_functionsFrom {made : List Closure} (hit : it.heap.FunctionsFrom made)
    {fuel : Nat} {program : List Stmt} (hprogram : Stmt.AllFunctionsAre (· ∈ made) program)
    {answer : Except EvalError (Option Val)}
    (h : it.executeWithin fuel program = some (answer, after)) :
    after.heap.FunctionsFrom (made ++ functionsMade (it.moments fuel program)) ∧
      ∀ v, answer = .ok (some v) → v.IsFrom (made ++ functionsMade (it.moments fuel program)) := by
  obtain ⟨-, hends, hdone⟩ := moments_traced hit fuel hprogram
  rw [watchProgram_shows fuel program [] [] it.start] at hends hdone
  rw [executeWithin_eq, Option.map_eq_some_iff] at h
  obtain ⟨⟨given, st⟩, hanswer, heq⟩ := h
  obtain ⟨hgiven, rfl⟩ := Prod.mk.inj heq
  refine ⟨hends st (Outcome.state?_of_answer? hanswer), fun v hv => ?_⟩
  -- a flush that fails takes the value away
  rw [hv, Sink.answerAfterFlush] at hgiven
  split at hgiven
  · rcases Outcome.answer?_eq_some hanswer with ⟨a, hrun, rfl⟩ | ⟨e, -, rfl⟩
    · cases hgiven
      exact hdone _ st hrun v rfl
    · cases hgiven
  · cases hgiven

/-- **Functions come from declarations.** -/
theorem History.functionsFrom (h : it.History past) :
    it.heap.FunctionsFrom (functionsMade past) := by
  induction h with
  | new sink limit? =>
    refine ⟨rfl, fun k c hc => (by cases hc), by simp [functionsMade], ?_⟩
    rintro c ⟨f, name, hc⟩
    cases (Heap.here?_initial f name).symm.trans hc
  | execute _ hprogram hrun ih =>
    rw [functionsMade_append]
    exact (executeWithin_functionsFrom ih hprogram hrun).1
  | @run it after past fuel code answer _ hrun ih =>
    rw [functionsMade_append]
    unfold momentsOf
    obtain ⟨_, hfailed, -, rfl⟩ | ⟨program, _, hread, hexecute, -⟩ := runWithin_cases hrun
    · rw [hfailed]
      exact (List.append_nil (functionsMade past)).symm ▸ ih
    · rw [hread]
      obtain ⟨tokens, -, hparse⟩ := readProgram_eq_ok.mp hread
      exact (executeWithin_functionsFrom ih (parse_functionsAre hparse) hexecute).1
  | defineGlobal _ name hv ih => exact ih.define Heap.root name hv
  | setLimit _ limit? ih => exact ih
  | setSink _ sink ih => exact ih

end Interpreter

/-- **Functions keep their identity.** Whatever has happened to an interpreter, and at every moment
of whatever it does next with a program that brings no other functions along, each function that
exists was made by exactly one execution of a declaration. Two of them are equal exactly if they
were made by the same one, and then have the same name, parameters, body and frame. A declaration
that is executed makes one more function, which it binds, and which is equal to none that exists at
that moment. In the end, too, the functions that are bound and the value of the program are told
apart like that. -/
theorem functions_keep_identity {it : Interpreter} {past : List Moment} (h : it.History past) :
    Coherent (functionsMade past) it.heap.BindsFunction ∧
    ∀ fuel program, Stmt.AllFunctionsAre (· ∈ functionsMade past) program →
      (∀ before m after, it.moments fuel program = before ++ m :: after →
        Coherent (functionsMade (past ++ before)) m.HasFunction ∧
        ∀ f name params body, m.deed = .declare f name params body → ∃ c : Closure,
          m.st.heap.declare f name params body =
            { m.st.heap with closures := m.st.heap.closures + 1 }.define f name (.closure c) ∧
          functionsMade (past ++ before ++ [m]) = functionsMade (past ++ before) ++ [c] ∧
          ∀ d, m.HasFunction d → (Val.closure c).same (.closure d) = false) ∧
      ∀ answer after, it.executeWithin fuel program = some (answer, after) →
        Coherent (functionsMade (past ++ it.moments fuel program)) fun c =>
          after.heap.BindsFunction c ∨ answer = .ok (some (.closure c)) := by
  have hit := h.functionsFrom
  refine ⟨hit.numbered.coherent hit.bound, fun fuel program hprogram =>
    ⟨fun before m after hsplit => ?_, fun answer after hrun => ?_⟩⟩
  · have hm := (Interpreter.moments_traced hit fuel hprogram).moments before m after hsplit
    rw [← functionsMade_append] at hm
    refine ⟨hm.heap.numbered.coherent fun c hc => hm.mem hc, ?_⟩
    intro f name params body hdeed
    refine ⟨⟨m.st.heap.closures, name, params, body, f⟩, rfl, ?_, fun d hd => ?_⟩
    · have hmakes : functionsMade [m] = [⟨m.st.heap.closures, name, params, body, f⟩] := by
        simp [functionsMade, Moment.makes?, hdeed]
      rw [functionsMade_append (past ++ before), hmakes]
    · exact hm.heap.same_eq_false (hm.mem hd) name params body f
  · obtain ⟨hheap, hanswer⟩ := Interpreter.executeWithin_functionsFrom hit hprogram hrun
    rw [functionsMade_append]
    refine hheap.numbered.coherent fun c hc => ?_
    rcases hc with hbound | hvalue
    · exact hheap.bound c hbound
    · exact hanswer _ hvalue c rfl

/-- The function to which a name is bound in the root frame. -/
def Interpreter.function? (it : Interpreter) (name : String) : Option Closure :=
  match it.heap.here? Heap.root name with
  | some (.closure c) => some c
  | _ => none

theorem Interpreter.bindsFunction_of_function? {it : Interpreter} {name : String} {c : Closure}
    (h : it.function? name = some c) : it.heap.BindsFunction c := by
  unfold function? at h
  split at h
  · next hc =>
    cases h
    exact ⟨Heap.root, name, hc⟩
  · cases h

/-- A function that is called twice declares and returns another one. What the calls return was made
by different executions of the one declaration, and is not equal. -/
theorem functions_keep_identity_of_repeated_call :
    let make : Expr := .call ⟨5, 5⟩ (.var ⟨5, 1⟩ "make") []
    let program : List Stmt := [
      .function "make" [] [.function "g" [] [], .returnValue (some (.var ⟨3, 8⟩ "g"))],
      .assign "a" make, .assign "b" make]
    let it := Interpreter.new .unlimited none
    let made := functionsMade (it.moments 2 program)
    it.History [] ∧ Stmt.AllFunctionsAre (· ∈ functionsMade []) program ∧
      ∃ answer after a b, it.executeWithin 2 program = some (answer, after) ∧
        after.function? "a" = some a ∧ after.function? "b" = some b ∧
        a.name = b.name ∧ (Val.closure a).same (.closure b) = false ∧
        (∃! k : Nat, made[k]? = some a) ∧
        ¬ ∃ k : Nat, made[k]? = some a ∧ made[k]? = some b := by
  intro make program it made
  have hnew : it.History [] := .new _ _
  have hnone : Stmt.AllFunctionsAre (· ∈ functionsMade []) program := by
    simp [program, make, Stmt.AllFunctionsAre, Stmt.FunctionsAre, Expr.FunctionsAre,
      Expr.AllFunctionsAre]
  have hbound : ((it.executeWithin 2 program).bind fun ended =>
      (ended.2.function? "a").bind fun a => (ended.2.function? "b").map fun b =>
        (decide (a.name = b.name), (Val.closure a).same (.closure b))) = some (true, false) := by
    decide +kernel
  obtain ⟨⟨answer, after⟩, hrun, hbound⟩ := Option.bind_eq_some_iff.mp hbound
  obtain ⟨a, ha, hbound⟩ := Option.bind_eq_some_iff.mp hbound
  obtain ⟨b, hb, hboth⟩ := Option.map_eq_some_iff.mp hbound
  obtain ⟨hname, hdiffer⟩ := Prod.mk.inj hboth
  have hcoherent := ((functions_keep_identity hnew).2 2 program hnone).2 answer after hrun
  have hafter (name : String) (c : Closure) (hc : after.function? name = some c) :
      after.heap.BindsFunction c ∨ answer = .ok (some (.closure c)) :=
    .inl (Interpreter.bindsFunction_of_function? hc)
  refine ⟨hnew, hnone, answer, after, a, b, hrun, ha, hb, of_decide_eq_true hname, hdiffer,
    hcoherent.made_once a (hafter _ a ha), fun hk => ?_⟩
  rw [(hcoherent.same_iff a b (hafter _ a ha) (hafter _ b hb)).mpr hk] at hdiffer
  cases hdiffer

end TwinScript
