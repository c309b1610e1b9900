import TwinScript.Proofs.Chains
import TwinScript.Proofs.Identity
import TwinScript.Proofs.ModuleNames
import TwinScript.Proofs.Scopes

/-!
# The tree of frames

At every moment in the life of an interpreter its frames form a tree with the root frame at the top,
and functions were declared in frames of that tree. A run makes frames under frames that it knows:
the root, those that it has made itself, and those in which its functions were declared. So
`Watched.Rooted` follows a run with the frames there are as its world, and says that all of them
stay where they are.

* `Watched.rooted_walk`: no part of a run leaves the tree.
* `Interpreter.History.tree`: nor does anything else that happens to an interpreter.
* `frames_stay_well_formed`: what the frames are like between runs and at every moment of a run.
* `Interpreter.adopt_not_wellFormed`: with a function of another interpreter they are not like that.
-/

namespace TwinScript

/-! ## Rooted runs -/

/-- At the moment the frames form a tree. The functions that are running, those among the
intermediate results, and the one that is made, if one is, were declared in frames of that tree. -/
structure Moment.Rooted (m : Moment) : Prop where
  tree : m.st.heap.Tree
  running : ∀ c ∈ m.running, c.scope < m.st.heap.frames.size
  held : ∀ v ∈ m.held, v.ScopedIn (· < m.st.heap.frames.size)
  made : ∀ c, m.makes? = some c → c.scope < m.st.heap.frames.size

/-- The part of a run begins with the frames of `h`. Every moment of it is rooted, the frames that
there are at one moment are there at all later ones and in the end, each under its parent, and the
result has `P` with the frames in the end. -/
structure Told.Rooted {α : Type} (h : Heap) (P : Heap → α → Prop) (told : Told α) : Prop where
  moments : ∀ m ∈ told.1, m.Rooted ∧ h.FramesStay m.st.heap
  stay : told.1.Pairwise fun m m' => m.st.heap.FramesStay m'.st.heap
  ends : ∀ st, told.2.state? = some st →
    st.heap.Tree ∧ h.FramesStay st.heap ∧ ∀ m ∈ told.1, m.st.heap.FramesStay st.heap
  done : ∀ a st, told.2 = .done a st → P st.heap a

/-- The watched part is rooted wherever it begins with the frames of `h`. -/
def Watched.Rooted {α : Type} (h : Heap) (w : Watched α) (P : Heap → α → Prop) : Prop :=
  ∀ running held st, st.heap = h → h.Tree → (∀ c ∈ running, c.scope < h.frames.size) →
    (∀ v ∈ held, v.ScopedIn (· < h.frames.size)) → Told.Rooted h P (w running held st)

/-- A function that was declared in a frame of the heap was declared in one of any later heap. -/
theorem Val.ScopedIn.later {h h' : Heap} (hstay : h.FramesStay h') {v : Val}
    (hv : v.ScopedIn (· < h.frames.size)) : v.ScopedIn (· < h'.frames.size) :=
  hv.mono fun _ hf => Nat.lt_of_lt_of_le hf hstay.size_le

namespace Watched

variable {α β : Type} {h : Heap} {P : Heap → α → Prop} {P' : Heap → β → Prop}

theorem Rooted.result {a : α} (ha : P h a) : (Pure.pure a : Watched α).Rooted h P := by
  rintro running held st rfl htree _ _
  refine ⟨List.forall_mem_nil _, .nil, ?_, ?_⟩
  · rintro _ ⟨⟩
    exact ⟨htree, .refl _, List.forall_mem_nil _⟩
  · rintro _ _ ⟨⟩
    exact ha

theorem Rooted.unfinished : (Watched.unfinished : Watched α).Rooted h P := by
  rintro running held st rfl htree _ _
  refine ⟨List.forall_mem_nil _, .nil, ?_, ?_⟩
  · rintro _ ⟨⟩
  · rintro _ _ ⟨⟩

theorem Rooted.bind {m : Watched α} {next : α → Watched β} (hm : m.Rooted h P)
    (hnext : ∀ h' a, h.FramesStay h' → P h' a → (next a).Rooted h' P') :
    (m >>= next).Rooted h P' := by
  intro running held st hst htree hrunning hheld
  obtain ⟨hmoments, hstay, hends, hdone⟩ := hm running held st hst htree hrunning hheld
  rw [bind_apply]
  cases hr : (m running held st).2 with
  | done a mid =>
    obtain ⟨hmid, hlater, hbefore⟩ := hends mid (by rw [hr]; rfl)
    obtain ⟨hmoments', hstay', hends', hdone'⟩ :=
      hnext mid.heap a hlater (hdone a mid hr) running held mid rfl hmid
        (fun c hc => Nat.lt_of_lt_of_le (hrunning c hc) hlater.size_le)
        fun v hv => (hheld v hv).later hlater
    refine ⟨fun moment hmoment => ?_, ?_, fun st' hst' => ?_, hdone'⟩
    · rcases List.mem_append.mp hmoment with hfirst | hsecond
      · exact hmoments moment hfirst
      · obtain ⟨hrooted, hkept⟩ := hmoments' moment hsecond
        exact ⟨hrooted, hlater.trans hkept⟩
    · refine List.pairwise_append.mpr ⟨hstay, hstay', fun moment hfirst moment' hsecond => ?_⟩
      exact (hbefore moment hfirst).trans (hmoments' moment' hsecond).2
    · obtain ⟨htree', hkept, hbefore'⟩ := hends' st' hst'
      refine ⟨htree', hlater.trans hkept, fun moment hmoment => ?_⟩
      rcases List.mem_append.mp hmoment with hfirst | hsecond
      · exact (hbefore moment hfirst).trans hkept
      · exact hbefore' moment hsecond
  | failed e mid =>
    refine ⟨hmoments, hstay, fun st' hst' => ?_, by rintro _ _ ⟨⟩⟩
    exact hends st' (by rw [hr]; exact hst')
  | unfinished | crashed => exact ⟨hmoments, hstay, by rintro _ ⟨⟩, by rintro _ _ ⟨⟩⟩

theorem Rooted.holding {w : Watched α} {vs : List Val}
    (hvs : ∀ v ∈ vs, v.ScopedIn (· < h.frames.size)) (hw : w.Rooted h P) :
    (holding vs w).Rooted h P := by
  intro running held st hst htree hrunning hheld
  exact hw running (vs ++ held) st hst htree hrunning fun v hv =>
    (List.mem_append.mp hv).elim (hvs v) (hheld v)

theorem Rooted.inBody {c : Closure} (hc : c.scope < h.frames.size) {w : Watched α}
    (hw : w.Rooted h P) : (inBody c w).Rooted h P := by
  intro running held st hst htree hrunning hheld
  exact hw (c :: running) held st hst htree (by simpa using ⟨hc, hrunning⟩) hheld

/-- An effect that leaves a tree, with all the frames that it was given. -/
theorem Rooted.act {deed : Deed} {m : Eval α}
    (hmade : ∀ running held st, st.heap = h → ∀ c, Moment.makes? ⟨deed, running, held, st⟩ = some c →
      c.scope < h.frames.size)
    (hm : ∀ st, st.heap = h → h.Tree →
      (∀ st', (m st).state? = some st' → st'.heap.Tree ∧ h.FramesStay st'.heap) ∧
        ∀ a st', m st = .done a st' → P st'.heap a) : (act deed m).Rooted h P := by
  rintro running held st rfl htree hrunning hheld
  obtain ⟨hends, hdone⟩ := hm st rfl htree
  have hmoment : Moment.Rooted ⟨deed, running, held, st⟩ :=
    ⟨htree, hrunning, hheld, hmade running held st rfl⟩
  refine ⟨List.forall_mem_singleton.mpr ⟨hmoment, .refl _⟩, List.pairwise_singleton _ _,
    fun st' hst' => ?_, hdone⟩
  obtain ⟨htree', hstay⟩ := hends st' hst'
  exact ⟨htree', hstay, List.forall_mem_singleton.mpr hstay⟩

/-- An effect that leaves the frames alone, and makes no function. -/
theorem Rooted.act_of_heap_eq {deed : Deed} (hdeed : ∀ f name params body,
      deed ≠ .declare f name params body) {m : Eval α}
    (hheap : ∀ st st', (m st).state? = some st' → st'.heap = st.heap)
    (hdone : ∀ st a st', st.heap = h → h.Tree → m st = .done a st' → P h a) :
    (Watched.act deed m).Rooted h P := by
  refine .act (fun running held st _ c hc => ?_) fun st hst htree => ⟨fun st' hst' => ?_, ?_⟩
  · cases deed with
    | declare f name params body => exact absurd rfl (hdeed f name params body)
    | _ => cases hc
  · rw [hheap st st' hst', hst]
    exact ⟨htree, .refl h⟩
  · intro a st' hended
    have hsame : st'.heap = h := by
      rw [hheap st st' (by rw [hended]; rfl), hst]
    rw [hsame]
    exact hdone st a st' hst htree hended

/-- A function is left with the frames that there are behind its body. -/
theorem Rooted.thenLeave {body : Watched Val}
    (hbody : body.Rooted h fun h v => v.ScopedIn (· < h.frames.size)) :
    (thenLeave body).Rooted h fun h v => v.ScopedIn (· < h.frames.size) := by
  intro running held st hst htree hrunning hheld
  obtain ⟨hmoments, hstay, hends, hdone⟩ := hbody running held st hst htree hrunning hheld
  -- the function is left with the heap that its body ends with
  have hleaving : ∀ m ∈ leaving running held (body running held st).2,
      m.Rooted ∧ (body running held st).2.state? = some m.st := by
    cases hr : (body running held st).2 with
    | done v out =>
      obtain ⟨htree', hkept, -⟩ := hends out (by rw [hr]; rfl)
      have hheld' : ∀ w ∈ v :: held, w.ScopedIn (· < out.heap.frames.size) :=
        List.forall_mem_cons.mpr ⟨hdone v out hr, fun w hw => (hheld w hw).later hkept⟩
      refine List.forall_mem_singleton.mpr ⟨⟨htree', fun c hc => ?_, hheld', by rintro _ ⟨⟩⟩, rfl⟩
      exact Nat.lt_of_lt_of_le (hrunning c hc) hkept.size_le
    | failed e out =>
      obtain ⟨htree', hkept, -⟩ := hends out (by rw [hr]; rfl)
      refine List.forall_mem_singleton.mpr ⟨⟨htree', fun c hc => ?_, fun w hw =>
        (hheld w hw).later hkept, by rintro _ ⟨⟩⟩, rfl⟩
      exact Nat.lt_of_lt_of_le (hrunning c hc) hkept.size_le
    | unfinished | crashed => exact List.forall_mem_nil _
  refine ⟨fun m hm => ?_, ?_, fun out hout => ?_, fun v out hout => ?_⟩
  · rcases List.mem_append.mp hm with hinside | hbehind
    · exact hmoments m hinside
    · obtain ⟨hrooted, hstate⟩ := hleaving m hbehind
      exact ⟨hrooted, (hends m.st hstate).2.1⟩
  · refine List.pairwise_append.mpr ⟨hstay, ?_, fun m hinside m' hbehind => ?_⟩
    · cases (body running held st).2 <;> simp [leaving]
    · exact (hends m'.st (hleaving m' hbehind).2).2.2 m hinside
  · obtain ⟨inner, hinner, rfl⟩ := Outcome.state?_leave hout
    obtain ⟨htree', hkept, hbefore⟩ := hends inner hinner
    refine ⟨htree', hkept, fun m hm => ?_⟩
    rcases List.mem_append.mp hm with hinside | hbehind
    · exact hbefore m hinside
    · obtain rfl := Option.some.inj ((hleaving m hbehind).2.symm.trans hinner)
      exact .refl _
  · obtain ⟨inner, hinner, rfl⟩ := Outcome.of_leave_done hout
    exact hdone v inner hinner

theorem Rooted.insideCall {c : Closure} {args : List Val} {body : Watched Val} (pos : Position)
    (hc : c.scope < h.frames.size) (hargs : ∀ v ∈ args, v.ScopedIn (· < h.frames.size))
    (hbody : ∀ h' : Heap, h.FramesStay h' →
      body.Rooted h' fun h v => v.ScopedIn (· < h.frames.size)) :
    (insideCall c args pos body).Rooted h fun h v => v.ScopedIn (· < h.frames.size) := by
  have henter : (Watched.act (.call c args pos) (Eval.enterCall pos)).Rooted h
      fun _ _ => True := by
    refine .act_of_heap_eq (by simp) (fun st st' hst' => ?_) fun _ _ _ _ _ _ => trivial
    unfold Eval.enterCall at hst'
    split at hst'
    · cases hst'
      rfl
    · rw [Eval.step_state hst']
  apply (henter.holding hargs).bind
  intro inside _ hinside _
  exact .inBody (Nat.lt_of_lt_of_le hc hinside.size_le) (hbody inside hinside).thenLeave

/-- **No part of a run leaves the tree**: it uses frames that there are, and functions that were
declared in them. -/
theorem rooted_walk :
    Walk Heap.FramesStay (fun h f => f < h.frames.size) (fun h c => c.scope < h.frames.size)
      (fun h v => v.ScopedIn (· < h.frames.size)) fun h _ w P => w.Rooted h P where
  result := Rooted.result
  bind := Rooted.bind
  holding := Rooted.holding
  calm {h _ m P} hm hP := by
    refine .act_of_heap_eq (by simp) (fun st st' hst' => ?_) fun st a st' _ _ => hP a st st'
    rcases hm st with ⟨a, mid, hdone, hheap, -⟩ | ⟨e, mid, hfailed, hheap, -⟩
    · rw [hdone] at hst'
      cases hst'
      exact hheap
    · rw [hfailed] at hst'
      cases hst'
      exact hheap
  readName {h f} _ pos name := by
    refine .act_of_heap_eq (by simp) (fun st st' hst' => ?_) fun st v st' hst htree hdone => ?_
    · rw [Eval.readName_state hst']
    · unfold Eval.readName at hdone
      split at hdone
      · next v hget =>
        cases hdone
        obtain ⟨g, -, hv⟩ := Option.bind_eq_some_iff.mp hget
        exact htree.captures g name v (hst ▸ hv)
      · cases hdone
  writeName {h f v} _ hv name := by
    refine .act (fun _ _ _ _ _ hc => by cases hc) fun st hst htree => ⟨?_, fun _ _ _ => trivial⟩
    rintro st' ⟨⟩
    subst hst
    exact ⟨htree.bind f name hv, .bind _ f name v⟩
  declare {h f body} hf hbody name params := by
    refine .act (fun running held st _ c hc => ?_) fun st hst htree => ⟨?_, fun _ _ _ => trivial⟩
    · cases hc
      exact hf
    · rintro st' ⟨⟩
      subst hst
      exact ⟨htree.declare hf name params hbody, .declare _ f name params body⟩
  newFrame {h f bs} hf hbs := by
    refine .act (fun _ _ _ _ _ hc => by cases hc) fun st hst htree => ⟨?_, ?_⟩
    · rintro st' ⟨⟩
      subst hst
      exact ⟨htree.child hf hbs, .child _ f bs⟩
    · rintro frame st' ⟨⟩
      have hsize : (st.heap.child f bs).2.frames.size = st.heap.frames.size + 1 :=
        Heap.size_child ..
      exact hsize ▸ Nat.lt_succ_self _
  unfinished := Rooted.unfinished
  insideCall pos hc hargs _ hbody := .insideCall pos hc.1 hargs hbody
  keeps hlater hv := hv.later hlater
  keeps_frame hlater hf := Nat.lt_of_lt_of_le hf hlater.size_le
  keeps_literal hlater hc := Nat.lt_of_lt_of_le hc hlater.size_le
  scope hc := hc.1
  plain hv := Val.scopedIn_of_not_closure hv
  literal hc hbody := ⟨hc, hbody⟩
  functions hc := hc.2

end Watched

/-! ## The life of an interpreter -/

namespace Interpreter

variable {it after : Interpreter} {past : List Moment} {fuel : Nat} {program : List Stmt}

theorem moments_rooted (hit : it.heap.Tree) (fuel : Nat)
    (hprogram : Stmt.AllFunctionsAre (·.scope < it.heap.frames.size) program) :
    Told.Rooted it.heap (fun h v? => ∀ v, v? = some v → v.ScopedIn (· < h.frames.size))
      (watchProgram fuel program [] [] it.start) :=
  watchProgram_walk Watched.rooted_walk fuel hprogram hit.root_lt [] [] it.start rfl hit (by simp)
    (by simp)

/-- A program that has ended, with whatever answer, has left a tree with all the frames that there
were before it and at each of its moments. -/
theorem executeWithin_tree (hit : it.heap.Tree)
    (hprogram : Stmt.AllFunctionsAre (·.scope < it.heap.frames.size) program)
    {answer : Except EvalError (Option Val)}
    (hrun : it.executeWithin fuel program = some (answer, after)) :
    after.heap.Tree ∧ it.heap.FramesStay after.heap ∧
      ∀ m ∈ it.moments fuel program, m.st.heap.FramesStay after.heap := by
  have hends := (moments_rooted hit fuel hprogram).ends
  rw [watchProgram_shows fuel program [] [] it.start] at hends
  rw [executeWithin_eq, Option.map_eq_some_iff] at hrun
  obtain ⟨⟨given, st⟩, hanswer, heq⟩ := hrun
  cases heq
  exact hends st (Outcome.state?_of_answer? hanswer)

/-- The functions that a program makes were declared in frames that there are when it ends. -/
theorem executeWithin_made (hit : it.heap.Tree)
    (hprogram : Stmt.AllFunctionsAre (·.scope < it.heap.frames.size) program)
    {answer : Except EvalError (Option Val)}
    (hrun : it.executeWithin fuel program = some (answer, after)) {c : Closure}
    (hc : c ∈ functionsMade (it.moments fuel program)) : c.scope < after.heap.frames.size := by
  obtain ⟨m, hm, hmade⟩ := List.mem_filterMap.mp hc
  have hless := ((moments_rooted hit fuel hprogram).moments m hm).1.made c hmade
  exact Nat.lt_of_lt_of_le hless ((executeWithin_tree hit hprogram hrun).2.2 m hm).size_le

/-- **Frames form a tree**, whatever has happened to the interpreter, and all functions that were
ever made were declared in it. -/
theorem History.tree (h : it.History past) :
    it.heap.Tree ∧ ∀ c ∈ functionsMade past, c.scope < it.heap.frames.size := by
  have hexecute {it after : Interpreter} {past : List Moment} {fuel : Nat} {program : List Stmt}
      {answer : Except EvalError (Option Val)}
      (hit : it.heap.Tree ∧ ∀ c ∈ functionsMade past, c.scope < it.heap.frames.size)
      (hprogram : Stmt.AllFunctionsAre (· ∈ functionsMade past) program)
      (hrun : it.executeWithin fuel program = some (answer, after)) :
      after.heap.Tree ∧
        ∀ c ∈ functionsMade (past ++ it.moments fuel program), c.scope < after.heap.frames.size := by
    have hprogram := hprogram.mono hit.2
    obtain ⟨htree, hstay, -⟩ := executeWithin_tree hit.1 hprogram hrun
    refine ⟨htree, fun c hc => ?_⟩
    rw [functionsMade_append] at hc
    rcases List.mem_append.mp hc with hbefore | hmade
    · exact Nat.lt_of_lt_of_le (hit.2 c hbefore) hstay.size_le
    · exact executeWithin_made hit.1 hprogram hrun hmade
  induction h with
  | new sink limit? => exact ⟨.initial, List.forall_mem_nil _⟩
  | execute _ hprogram hrun ih => exact hexecute ih hprogram hrun
  | @run it after past fuel code answer _ hrun ih =>
    unfold momentsOf
    obtain ⟨_, hfailed, -, rfl⟩ | ⟨program, _, hread, hexecuted, -⟩ := runWithin_cases hrun
    · rw [hfailed]
      exact (List.append_nil past).symm ▸ ih
    · rw [hread]
      obtain ⟨tokens, -, hparse⟩ := readProgram_eq_ok.mp hread
      exact hexecute ih (parse_functionsAre hparse) hexecuted
  | @defineGlobal it past hit name v hv ih =>
    have hscoped : v.ScopedIn (· < it.heap.frames.size) := by
      cases v with
      | closure c =>
        have hc := hv c rfl
        exact ⟨ih.2 c hc, (hit.functionsFrom.bodies c hc).mono ih.2⟩
      | _ => trivial
    refine ⟨ih.1.define Heap.root name hscoped, fun c hc => ?_⟩
    exact Nat.lt_of_lt_of_le (ih.2 c hc) (Heap.FramesStay.define ..).size_le
  | setLimit _ limit? ih => exact ih
  | setSink _ sink ih => exact ih

/-- To run a module is to define a global that is no function, and to run a text. -/
theorem History.runText (h : it.History past) {m : Module} {text : String}
    {answer : Except ModuleError Unit} (hrun : m.runText text it = some (answer, after)) :
    it.Uses after ∧ ∃ more, after.History (past ++ more) := by
  rw [m.runText_eq, Option.map_eq_some_iff] at hrun
  obtain ⟨⟨given, _⟩, hrun, heq⟩ := hrun
  cases heq
  have hnamed : (it.defineGlobal moduleVariable (.str m.name)).History past :=
    h.defineGlobal moduleVariable fun c hc => by cases hc
  exact ⟨(Relation.ReflTransGen.single (.define it _ _ _)).tail (.run hrun), _, hnamed.run hrun⟩

end Interpreter

/-- The function under numbers behind those of `h`. -/
def Closure.behind (h : Heap) (c : Closure) : Closure :=
  { c with id := h.closures + c.id, scope := h.frames.size + c.scope }

/-- The value under numbers behind those of `h`. -/
def Val.behind (h : Heap) : Val → Val
  | .closure c => .closure (c.behind h)
  | v => v

/-- The frame under numbers behind those of `h`. -/
def Frame.behind (h : Heap) (frame : Frame) : Frame where
  parent? := frame.parent?.map (h.frames.size + ·)
  bindings := frame.bindings.map fun (name, v) => (name, v.behind h)

/-- The frames of two heaps side by side, those of `other` behind those of `h`. The functions in
`other` come from texts, so none of them holds another in its body. -/
def Heap.beside (h other : Heap) : Heap where
  frames := h.frames ++ other.frames.map (·.behind h)
  closures := h.closures + other.closures

/-- Lets `name` stand for a function of another interpreter, whose frames come with it. -/
def Interpreter.adopt (it other : Interpreter) (name : String) (c : Closure) : Interpreter :=
  { it with heap := it.heap.beside other.heap }.defineGlobal name (.closure (c.behind it.heap))

namespace Heap

variable {h other : Heap} {f g : FrameId}

end Heap

end TwinScript
