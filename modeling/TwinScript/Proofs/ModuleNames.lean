import TwinScript.Module
import TwinScript.Proofs.Heap
import TwinScript.Proofs.Interpreter
import TwinScript.Proofs.Token.Scans

/-!
# What a module finds in its name

The file that was started is called `main` to itself, and every other module goes by the stem of
its path. Both are texts, and nothing keeps them apart: a module that was not started goes by `main`
too where its file is called so (`Module.name_eq_entryName_iff`).

* `Path.stem_eq_iff`: the files whose stem is a given name are that name alone, and that name with
  one more extension behind it.
* `Interpreter.global?_defineGlobal`: what a program finds behind a definition in the root.
* `module_name_bound`: what is bound when the text of a module begins to run, and for which modules
  that is `main`.
-/

namespace TwinScript

namespace Path

/-- A file is called `s` if `s` is its name, with an extension or without. -/
def IsCalled (file s : String) : Prop :=
  file = s ∨ ∃ ext : String, '.' ∉ ext.toList ∧ file = s ++ "." ++ ext

/-! ## Stems -/

theorem all_ne_dot {cs : List Char} (h : '.' ∉ cs) : ∀ c ∈ cs.reverse, (c != '.') = true := by
  intro c hc
  rw [bne_iff_ne]
  rintro rfl
  exact h (List.mem_reverse.mp hc)

/-- A name without dots has no extension. -/
theorem stem_of_no_dot {name : String} (h : '.' ∉ name.toList) : stem name = name := by
  have hnone : name.toList.reverse.dropWhile (· != '.') = [] := by
    rw [← List.append_nil name.toList.reverse, List.dropWhile_append_of_pos (all_ne_dot h)]
    rfl
  simp [stem, hnone]

/-- The extension begins at the last dot. -/
theorem stem_of_last_dot {name : String} {front back : List Char} (h : '.' ∉ back)
    (hname : name.toList = front ++ '.' :: back) :
    stem name = if front = [] then name else String.ofList front := by
  have hdrop : name.toList.reverse.dropWhile (· != '.') = '.' :: front.reverse := by
    rw [hname, List.reverse_append, List.reverse_cons, List.append_assoc,
      List.dropWhile_append_of_pos (all_ne_dot h)]
    rfl
  simp [stem, hdrop]

/-- A name with dots has a last one. -/
theorem exists_last_dot {cs : List Char} (h : '.' ∈ cs) :
    ∃ front back, '.' ∉ back ∧ cs = front ++ '.' :: back := by
  induction cs with
  | nil => cases h
  | cons c rest ih =>
    by_cases hrest : '.' ∈ rest
    · obtain ⟨front, back, hback, rfl⟩ := ih hrest
      exact ⟨c :: front, back, hback, rfl⟩
    · obtain rfl : '.' = c := (List.mem_cons.mp h).resolve_right hrest
      exact ⟨[], rest, hrest, rfl⟩

/-- **The files with a given stem** are those that are called so. -/
theorem stem_eq_iff {s : String} (hs : s ≠ "") (hdot : '.' ∉ s.toList) (name : String) :
    stem name = s ↔ IsCalled name s := by
  constructor
  · intro hstem
    by_cases hname : '.' ∈ name.toList
    · obtain ⟨front, back, hback, hsplit⟩ := exists_last_dot hname
      rw [stem_of_last_dot hback hsplit] at hstem
      split at hstem
      · exact .inl hstem
      · refine .inr ⟨String.ofList back, by simpa using hback, ?_⟩
        rw [← hstem, ← String.toList_inj, hsplit]
        simp
    · exact .inl ((stem_of_no_dot hname).symm.trans hstem)
  · rintro (rfl | ⟨ext, hext, rfl⟩)
    · exact stem_of_no_dot hdot
    · have hsplit : (s ++ "." ++ ext).toList = s.toList ++ '.' :: ext.toList := by simp
      rw [stem_of_last_dot hext hsplit, if_neg (by simpa using hs), String.ofList_toList]

end Path

/-! ## The name of a module -/

/-- **A module goes by `main`** if it is the one that was started, or if the file that its path
names is called so. -/
theorem Module.name_eq_entryName_iff (m : Module) :
    m.name = entryName ↔
      m.isEntry ∨ ∃ file, Path.fileName? m.path = some file ∧ Path.IsCalled file entryName := by
  have hstem (file : String) : Path.stem file = entryName ↔ Path.IsCalled file entryName :=
    Path.stem_eq_iff (by decide) (by decide) file
  unfold Module.name
  by_cases hentry : m.isEntry
  · simp [hentry]
  · cases hfile : Path.fileName? m.path with
    | some file => simp [hentry, Path.fileStem?, hfile, hstem]
    | none =>
      -- the name is the path itself then, and the path `main` does name a file
      have hpath : m.path ≠ entryName := by
        intro hpath
        have hmain : Path.fileName? entryName = some entryName := by decide +kernel
        rw [hpath, hmain] at hfile
        cases hfile
      simp [hentry, Path.fileStem?, hfile, hpath]

/-! ## What is bound in the root -/

/-- What a name stands for in the root, where it has one. -/
theorem Heap.get?_root_define {h : Heap} (hroot : Heap.root < h.frames.size) (name other : String)
    (v : Val) :
    (h.define Heap.root name v).get? Heap.root other =
      if other = name then some v else h.get? Heap.root other := by
  have hlook (h : Heap) : h.get? Heap.root other =
      if h.Binds Heap.root other then h.here? Heap.root other else none := by
    unfold Heap.get? Heap.binder?
    rw [Heap.binderWithin?_succ]
    split
    · rfl
    · cases h.above? Heap.root <;> rfl
  rw [hlook, hlook, Heap.here?_define _ _ _ _ _ _ hroot]
  simp only [Heap.binds_define, hroot, true_and, and_true]
  by_cases hother : other = name <;> simp [hother]

/-- A definition in the root binds its name there, and leaves all others. -/
theorem Interpreter.global?_defineGlobal {it : Interpreter}
    (hroot : Heap.root < it.heap.frames.size) (name other : String) (v : Val) :
    (it.defineGlobal name v).global? other = if other = name then some v else it.global? other :=
  Heap.get?_root_define hroot name other v

/-- The text of a module runs as any text does, behind a definition. -/
theorem Module.runText_eq (m : Module) (text : String) (it : Interpreter) :
    m.runText text it =
      ((it.defineGlobal moduleVariable (.str m.name)).run text).map fun (answer, after) =>
        ((answer.mapError fun e => ⟨m.path, .program e⟩).map fun _ => (), after) := by
  unfold Module.runText
  rcases (it.defineGlobal moduleVariable (.str m.name)).run text with _ | ⟨_ | _, _⟩ <;> rfl

/-- **What a module finds in `__module__`.** Its text runs where `__module__` stands for the name of
the module and every other name for what it stood for before. That name is `main` for the module
that was started, and for no other but those whose file is called `main`, with an extension or
without. -/
theorem module_name_bound (m : Module) (text : String) (it : Interpreter)
    (hroot : Heap.root < it.heap.frames.size) :
    ∃ started : Interpreter,
      started.global? moduleVariable = some (.str m.name) ∧
      (∀ other, other ≠ moduleVariable → started.global? other = it.global? other) ∧
      m.runText text it = (started.run text).map (fun (answer, after) =>
        ((answer.mapError fun e => ⟨m.path, .program e⟩).map fun _ => (), after)) ∧
      (m.name = entryName ↔
        m = .entry m.path ∨
          ∃ file, Path.fileName? m.path = some file ∧ Path.IsCalled file entryName) := by
  refine ⟨it.defineGlobal moduleVariable (.str m.name), ?_, fun other hother => ?_,
    m.runText_eq text it, ?_⟩
  · rw [Interpreter.global?_defineGlobal hroot, if_pos rfl]
  · rw [Interpreter.global?_defineGlobal hroot, if_neg hother]
  · have hentry : m = .entry m.path ↔ m.isEntry = true := by
      cases m
      simp [Module.entry]
    rw [hentry]
    exact m.name_eq_entryName_iff

/-- A library in a new interpreter finds its own name. -/
theorem module_name_bound_of_library :
    let m := Module.imported "lib/util.df"
    ∃ started : Interpreter, started.global? moduleVariable = some (.str "util") ∧
      m.runText "" (.new .unlimited none) = (started.run "").map fun (answer, after) =>
        ((answer.mapError fun e => ⟨m.path, .program e⟩).map fun _ => (), after) := by
  intro m
  have hname : m.name = "util" := by decide +kernel
  obtain ⟨started, hbound, -, hrun, -⟩ :=
    module_name_bound m "" (.new .unlimited none) (by decide)
  exact ⟨started, hname ▸ hbound, hrun⟩

/-- A module whose file is called `main` finds that name also where it was not started, and so takes
itself for the program. -/
theorem imported_main_finds_entry_name :
    let m := Module.imported "main.df"
    m ≠ .entry m.path ∧
      ∃ after, m.runText "" (.new .unlimited none) = some (.ok (), after) ∧
        after.global? moduleVariable = some (.str entryName) := by
  intro m
  have hname : m.name = entryName := by decide +kernel
  have hread : readProgram "" = .ok [] := readProgram_eq_ok.mpr ⟨[], by decide +kernel, rfl⟩
  rw [m.runText_eq, Interpreter.run, Interpreter.runWithin_of_ok hread, hname]
  exact ⟨by decide, _, rfl, (Interpreter.global?_defineGlobal (by decide) ..).trans (if_pos rfl)⟩

end TwinScript
