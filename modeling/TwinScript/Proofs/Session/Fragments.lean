import TwinScript.Proofs.Token.LineEnds
import TwinScript.Session.Fragments
import Mathlib.Logic.ExistsUnique

/-!
# How lines group into fragments

`fragments` keeps the text of the group in progress and takes an empty text for no group at all.
That is right because an open text is never empty (`ne_empty_of_isOpen`); what comes out is the one
way to cut the lines where the text since the last cut has just stopped being open.

* `isOpen_of_scans`, `isOpen_of_endsInString`: which texts are open.
* `Grouping`: a cutting of lines into groups, each of which ends as soon as it is closed.
* `Grouping.unique`: lines group in one way only.
* `fragments_unique_grouping`: the fragments are the texts of that grouping, and lose nothing.
-/

namespace TwinScript

/-! ## Open brackets -/

theorem bracketDepth_eq_sum (tokens : List Token) :
    bracketDepth tokens = (tokens.map (·.kind.bracket)).sum := by
  have hfrom (depth : Int) :
      tokens.foldl (fun depth token => depth + token.kind.bracket) depth =
        depth + (tokens.map (·.kind.bracket)).sum := by
    induction tokens generalizing depth with
    | nil => simp
    | cons t ts ih =>
      rw [List.foldl_cons, ih, List.map_cons, List.sum_cons]
      omega
  rw [bracketDepth, hfrom, Int.zero_add]

theorem bracketDepth_append (ts us : List Token) :
    bracketDepth (ts ++ us) = bracketDepth ts + bracketDepth us := by
  simp [bracketDepth_eq_sum]

/-- Only the kinds of the tokens count. -/
theorem bracketDepth_congr {ts us : List Token} (h : ts.map (·.kind) = us.map (·.kind)) :
    bracketDepth ts = bracketDepth us := by
  have hmap (tokens : List Token) :
      tokens.map (·.kind.bracket) = (tokens.map (·.kind)).map Token.Kind.bracket := by
    rw [List.map_map]
    rfl
  rw [bracketDepth_eq_sum, bracketDepth_eq_sum, hmap ts, hmap us, h]

/-! ## Open texts -/

/-- A text that scans is open if it opens more brackets than it closes. -/
theorem isOpen_of_scans {p : Position} {text : String} {tokens : List Token}
    (h : Scans p text.toList tokens) : isOpen text = decide (0 < bracketDepth tokens) := by
  obtain ⟨tokens', hscans, hkinds⟩ := h.elsewhere .start
  have hscan : scan text = ⟨tokens', none⟩ := hscans.scanOn_eq []
  unfold isOpen
  rw [hscan, ← bracketDepth_congr hkinds]

/-- A text that breaks off in a string is open. -/
theorem isOpen_of_endsInString {text : String} (h : EndsInString text.toList) :
    isOpen text = true := by
  obtain ⟨pos, herror⟩ := h [] .start
  unfold isOpen scan
  dsimp only
  rw [herror]

theorem isOpen_empty : isOpen "" = false :=
  isOpen_of_scans (p := .start) (.nil rfl)

theorem ne_empty_of_isOpen {text : String} (h : isOpen text = true) : text ≠ "" := by
  rintro rfl
  rw [isOpen_empty] at h
  cases h

/-! ## Lines as one text -/

/-- The lines as one text, with line breaks between them. -/
def joinLines (lines : List String) : String := "\n".intercalate lines

@[simp] theorem joinLines_nil : joinLines [] = "" := String.intercalate_nil

@[simp] theorem joinLines_singleton (line : String) : joinLines [line] = line :=
  String.intercalate_singleton

theorem joinLines_append {front back : List String} (hfront : front ≠ []) (hback : back ≠ []) :
    joinLines (front ++ back) = joinLines front ++ "\n" ++ joinLines back :=
  String.intercalate_append_of_ne_nil hfront hback

/-- The texts of several groups of lines are joined as their lines are. -/
theorem joinLines_flatten {groups : List (List String)} (h : ∀ group ∈ groups, group ≠ []) :
    joinLines (groups.map joinLines) = joinLines groups.flatten := by
  induction groups with
  | nil => rfl
  | cons group rest ih =>
    obtain ⟨hgroup, hrest⟩ := List.forall_mem_cons.mp h
    cases rest with
    | nil => simp
    | cons next rest =>
      have hnext : (next :: rest).flatten ≠ [] := by
        rw [List.flatten_cons]
        exact List.append_ne_nil_of_left_ne_nil (hrest next List.mem_cons_self) _
      have hsplit : joinLines ([joinLines group] ++ (next :: rest).map joinLines) =
          joinLines group ++ "\n" ++ joinLines ((next :: rest).map joinLines) := by
        rw [joinLines_append (by simp) (by simp), joinLines_singleton]
      rw [List.flatten_cons, joinLines_append hgroup hnext, ← ih hrest, ← hsplit]
      rfl

/-! ## Groupings -/

/-- A cutting of the lines into consecutive groups, each of which goes on as long as its text is
open. The last group may still be open. -/
structure Grouping (lines : List String) (groups : List (List String)) : Prop where
  /-- The groups are the lines, in order. -/
  flatten_eq : groups.flatten = lines
  /-- Every group has a line. -/
  ne_nil : ∀ group ∈ groups, group ≠ []
  /-- Inside a group, the text is open. -/
  open_inside : ∀ group ∈ groups, ∀ front back, group = front ++ back → front ≠ [] → back ≠ [] →
    isOpen (joinLines front) = true
  /-- At the end of every group but the last, it is not. -/
  closed : ∀ group ∈ groups.dropLast, isOpen (joinLines group) = false

namespace Grouping

theorem nil : Grouping [] [] :=
  ⟨rfl, by simp, by simp, by simp⟩

/-- One group that is in progress at the end of the lines. -/
theorem singleton {lines : List String} (hlines : lines ≠ [])
    (hopen : ∀ front back, lines = front ++ back → front ≠ [] → back ≠ [] →
      isOpen (joinLines front) = true) : Grouping lines [lines] :=
  ⟨by simp, by simpa using hlines, by simpa using hopen, by simp⟩

/-- A finished group before others. -/
theorem cons {group lines : List String} {groups : List (List String)} (hgroup : group ≠ [])
    (hopen : ∀ front back, group = front ++ back → front ≠ [] → back ≠ [] →
      isOpen (joinLines front) = true) (hclosed : isOpen (joinLines group) = false)
    (h : Grouping lines groups) : Grouping (group ++ lines) (group :: groups) := by
  refine ⟨by rw [List.flatten_cons, h.flatten_eq], ?_, ?_, ?_⟩
  · exact List.forall_mem_cons.mpr ⟨hgroup, h.ne_nil⟩
  · exact List.forall_mem_cons.mpr ⟨hopen, h.open_inside⟩
  · cases groups with
    | nil => simp
    | cons next rest =>
      rw [List.dropLast_cons_cons]
      exact List.forall_mem_cons.mpr ⟨hclosed, h.closed⟩

variable {lines : List String} {group : List String} {groups : List (List String)}

/-- The groups behind the first group the lines behind it. -/
theorem tail (h : Grouping lines (group :: groups)) : Grouping groups.flatten groups := by
  refine ⟨rfl, fun g hg => h.ne_nil g (List.mem_cons_of_mem _ hg),
    fun g hg => h.open_inside g (List.mem_cons_of_mem _ hg), ?_⟩
  cases groups with
  | nil => simp
  | cons next rest =>
    have hclosed := h.closed
    rw [List.dropLast_cons_cons] at hclosed
    exact (List.forall_mem_cons.mp hclosed).2

theorem lines_eq (h : Grouping lines (group :: groups)) : lines = group ++ groups.flatten := by
  rw [← h.flatten_eq, List.flatten_cons]

/-- A group with lines behind it is closed. -/
theorem closed_head (h : Grouping lines (group :: groups)) (hbehind : groups.flatten ≠ []) :
    isOpen (joinLines group) = false := by
  have hgroups : groups ≠ [] := by
    rintro rfl
    exact hbehind rfl
  refine h.closed group ?_
  rw [List.dropLast_cons_of_ne_nil hgroups]
  exact List.mem_cons_self

theorem eq_nil_of_lines (h : Grouping [] groups) : groups = [] := by
  cases groups with
  | nil => rfl
  | cons group groups =>
    have hlines := h.lines_eq
    exact absurd (List.append_eq_nil_iff.mp hlines.symm).1 (h.ne_nil group List.mem_cons_self)

/-- Of two first groups, neither goes further: the text would have to be both open and closed where
the shorter one ends. -/
theorem head_eq_of_prefix {group' behind : List String} {groups' : List (List String)}
    (h : Grouping lines (group :: groups)) (h' : Grouping lines (group' :: groups'))
    (hgroup : group' = group ++ behind) (hrest : groups.flatten = behind ++ groups'.flatten) :
    behind = [] := by
  by_contra hbehind
  have hopen : isOpen (joinLines group) = true :=
    h'.open_inside group' List.mem_cons_self group behind hgroup
      (h.ne_nil group List.mem_cons_self) hbehind
  have hclosed : isOpen (joinLines group) = false := by
    refine h.closed_head ?_
    rw [hrest]
    exact List.append_ne_nil_of_left_ne_nil hbehind _
  rw [hopen] at hclosed
  cases hclosed

theorem head_eq {group' : List String} {groups' : List (List String)}
    (h : Grouping lines (group :: groups)) (h' : Grouping lines (group' :: groups')) :
    group = group' := by
  have hlines : group ++ groups.flatten = group' ++ groups'.flatten := by
    rw [← h.lines_eq, ← h'.lines_eq]
  rcases List.append_eq_append_iff.mp hlines with ⟨behind, hgroup, hrest⟩ | ⟨behind, hgroup, hrest⟩
  · rw [hgroup, h.head_eq_of_prefix h' hgroup hrest, List.append_nil]
  · rw [hgroup, h'.head_eq_of_prefix h hgroup hrest, List.append_nil]

/-- Lines group in one way only. -/
theorem unique {groups' : List (List String)} (h : Grouping lines groups)
    (h' : Grouping lines groups') : groups = groups' := by
  induction groups generalizing lines groups' with
  | nil =>
    obtain rfl : [] = lines := h.flatten_eq
    exact h'.eq_nil_of_lines.symm
  | cons group groups ih =>
    cases groups' with
    | nil =>
      obtain rfl : [] = lines := h'.flatten_eq
      exact h.eq_nil_of_lines
    | cons group' groups' =>
      obtain rfl := h.head_eq h'
      have hrest : groups.flatten = groups'.flatten :=
        List.append_cancel_left (h.lines_eq.symm.trans h'.lines_eq)
      have htail := h'.tail
      rw [← hrest] at htail
      rw [ih h.tail htail]

end Grouping

/-! ## What the splitter does -/

/-- A line added to the text of the group in progress is a line added to the group. -/
theorem joinLine_joinLines {started : List String}
    (hopen : started ≠ [] → isOpen (joinLines started) = true) (line : String) :
    joinLine (joinLines started) line = joinLines (started ++ [line]) := by
  by_cases hstarted : started = []
  · subst hstarted
    simp [joinLine]
  · have hne : ¬ (joinLines started).isEmpty = true := by
      rw [String.isEmpty_iff]
      exact ne_empty_of_isOpen (hopen hstarted)
    rw [joinLine, if_neg hne, joinLines_append hstarted (by simp), joinLines_singleton]

/-- Cutting goes on from a group in progress, as long as all of it is open. -/
theorem fragmentsOn_grouping (done : List String) {started : List String}
    (hopen : ∀ front back, started = front ++ back → front ≠ [] → isOpen (joinLines front) = true)
    (lines : List String) :
    ∃ groups, Grouping (started ++ lines) groups ∧
      fragmentsOn done (joinLines started) lines = done.reverse ++ groups.map joinLines := by
  induction lines generalizing done started with
  | nil =>
    by_cases hstarted : started = []
    · subst hstarted
      exact ⟨[], .nil, by simp [fragmentsOn]⟩
    · have hne : ¬ (joinLines started).isEmpty = true := by
        rw [String.isEmpty_iff]
        exact ne_empty_of_isOpen (hopen started [] (by simp) hstarted)
      refine ⟨[started], ?_, ?_⟩
      · rw [List.append_nil]
        exact .singleton hstarted fun front back hsplit hfront _ => hopen front back hsplit hfront
      · rw [fragmentsOn, if_neg hne, List.reverse_cons, List.map_singleton]
  | cons line rest ih =>
    have htext : joinLine (joinLines started) line = joinLines (started ++ [line]) :=
      joinLine_joinLines (fun h => hopen started [] (by simp) h) line
    have hproper : ∀ front back, started ++ [line] = front ++ back → front ≠ [] → back ≠ [] →
        isOpen (joinLines front) = true := by
      intro front back hsplit hfront hback
      obtain ⟨back', last, rfl⟩ : ∃ back' last, back = back' ++ [last] :=
        ⟨_, _, (List.dropLast_concat_getLast hback).symm⟩
      rw [← List.append_assoc] at hsplit
      exact hopen front back' (List.append_inj_left' hsplit rfl) hfront
    rw [fragmentsOn, htext]
    split
    · next hstill =>
      have hopen' : ∀ front back, started ++ [line] = front ++ back → front ≠ [] →
          isOpen (joinLines front) = true := by
        intro front back hsplit hfront
        by_cases hback : back = []
        · rw [hback, List.append_nil] at hsplit
          rw [← hsplit]
          exact hstill
        · exact hproper front back hsplit hfront hback
      obtain ⟨groups, hgroups, hfragments⟩ := ih done hopen'
      refine ⟨groups, ?_, hfragments⟩
      rw [List.append_assoc] at hgroups
      exact hgroups
    · next hclosed =>
      rw [Bool.not_eq_true] at hclosed
      have hnone : ∀ front back : List String, [] = front ++ back → front ≠ [] →
          isOpen (joinLines front) = true :=
        fun front back hsplit hfront => absurd (List.append_eq_nil_iff.mp hsplit.symm).1 hfront
      obtain ⟨groups, hgroups, hfragments⟩ := ih (joinLines (started ++ [line]) :: done) hnone
      refine ⟨(started ++ [line]) :: groups, ?_, ?_⟩
      · have hcons := Grouping.cons (by simp) hproper hclosed hgroups
        simpa using hcons
      · rw [joinLines_nil] at hfragments
        rw [hfragments, List.reverse_cons, List.map_cons, List.append_assoc, List.singleton_append]

/-- The fragments are the texts of a grouping. -/
theorem exists_grouping (lines : List String) :
    ∃ groups, Grouping lines groups ∧ fragments lines = groups.map joinLines := by
  obtain ⟨groups, hgroups, hfragments⟩ := @fragmentsOn_grouping [] [] (by simp) lines
  exact ⟨groups, hgroups, hfragments⟩

/-- **The fragments are the one grouping of the lines.** There is exactly one way to cut the lines
into groups that end as soon as they are closed, and the fragments are its texts. So nothing is
lost: the fragments and the lines join to the same text. -/
theorem fragments_unique_grouping (lines : List String) :
    (∃! groups, Grouping lines groups) ∧
      (∀ groups, Grouping lines groups → fragments lines = groups.map joinLines) ∧
      joinLines (fragments lines) = joinLines lines := by
  obtain ⟨groups, hgroups, hfragments⟩ := exists_grouping lines
  refine ⟨⟨groups, hgroups, fun others hothers => hothers.unique hgroups⟩, ?_, ?_⟩
  · intro others hothers
    rw [hothers.unique hgroups]
    exact hfragments
  · rw [hfragments, joinLines_flatten hgroups.ne_nil, hgroups.flatten_eq]

end TwinScript
