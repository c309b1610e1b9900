import TwinScript.Proofs.Session.Fragments
import TwinScript.Proofs.Syntax.Nesting

/-!
# A finished program ends its group

The splitter only counts brackets, and knows neither their kinds nor what a program is. Still it
never holds back a program that is complete: the brackets of a program are well nested, so none is
open behind it, and none is closed too often on the way. Lines that were cut off before cannot
change that. A cut inside the program falls between two of its tokens, as a text that breaks off in
a string is open, and at depth zero, as the depth is never negative in the program and not positive
at a cut.

* `WellNested.depth_eq_zero`, `WellNested.depth_nonneg`: the depth of nesting in a well-nested word.
* `Grouping.exists_boundary`: a text at whose end nothing is open ends a group.
* `programs_end_groups`: all of this for texts that scan and parse.
-/

namespace TwinScript

/-! ## Depth in words of brackets -/

/-- How many more brackets the word opens than it closes. -/
def wordDepth (word : List Symbol) : Int :=
  (word.map fun s => (Token.Kind.symbol s).bracket).sum

@[simp] theorem wordDepth_append (v w : List Symbol) :
    wordDepth (v ++ w) = wordDepth v + wordDepth w := by
  simp [wordDepth]

/-- The depth of tokens is that of their brackets: other tokens do not count. -/
theorem bracketDepth_eq_wordDepth (tokens : List Token) :
    bracketDepth tokens = wordDepth (brackets tokens) := by
  rw [bracketDepth_eq_sum]
  induction tokens with
  | nil => rfl
  | cons t ts ih =>
    have hone : t.kind.bracket = wordDepth (brackets [t]) := by
      obtain ⟨kind, lexeme, pos⟩ := t
      cases kind with
      | symbol s => cases s <;> rfl
      | _ => rfl
    rw [List.map_cons, List.sum_cons, ih, hone, ← wordDepth_append, ← brackets_append,
      List.singleton_append]

/-- A bracket counts one up, and the bracket that closes it one down. -/
theorem wordDepth_closing {opening closing : Symbol} (h : opening.closing? = some closing) :
    wordDepth [opening] = 1 ∧ wordDepth [closing] = -1 := by
  cases opening <;> cases h <;> exact ⟨rfl, rfl⟩

namespace WellNested

theorem depth_eq_zero {w : List Symbol} (h : WellNested w) : wordDepth w = 0 := by
  induction h with
  | nil => rfl
  | @wrap opening closing inside more hclosing _ _ ihinside ihmore =>
    obtain ⟨hup, hdown⟩ := wordDepth_closing hclosing
    rw [← List.singleton_append, ← List.singleton_append (l := more)]
    simp only [wordDepth_append, hup, hdown, ihinside, ihmore]
    rfl

/-- No beginning of the word closes more than it opens. -/
theorem depth_nonneg {u v w : List Symbol} (h : WellNested w) (hw : w = u ++ v) :
    0 ≤ wordDepth u := by
  induction h generalizing u v with
  | nil =>
    rw [(List.append_eq_nil_iff.mp hw.symm).1]
    exact Int.le_refl 0
  | @wrap opening closing inside more hclosing hinside _ ihinside ihmore =>
    obtain ⟨hup, hdown⟩ := wordDepth_closing hclosing
    cases u with
    | nil => exact Int.le_refl 0
    | cons s u =>
      obtain ⟨rfl, hbehind⟩ := List.cons.inj hw
      rw [← List.singleton_append, wordDepth_append, hup]
      rcases List.append_eq_append_iff.mp hbehind with ⟨u', rfl, hmore⟩ | ⟨v', rfl, -⟩
      · rw [wordDepth_append, hinside.depth_eq_zero]
        cases u' with
        | nil => decide
        | cons s' u' =>
          obtain ⟨rfl, hbehind'⟩ := List.cons.inj hmore
          have hrest := ihmore hbehind'
          rw [← List.singleton_append, wordDepth_append, hdown]
          omega
      · have hrest := ihinside rfl
        omega

end WellNested

/-- A program closes what it opens, and nothing else on the way. -/
theorem bracketDepth_of_parse {tokens : List Token} {program : List Stmt}
    (h : parse tokens = .ok program) :
    bracketDepth tokens = 0 ∧ ∀ ts us, tokens = ts ++ us → 0 ≤ bracketDepth ts := by
  have hnested := wellNested_of_parse h
  simp only [bracketDepth_eq_wordDepth]
  refine ⟨hnested.depth_eq_zero, fun ts us hsplit => hnested.depth_nonneg (v := brackets us) ?_⟩
  rw [hsplit, brackets_append]

/-! ## Boundaries -/

/-- Lines that are closed at the end, and nowhere closed too often, end a group. The induction is on
the groups: the first of them either ends within the lines, and then the tokens behind it are closed
at the end and nowhere closed too often as well, or it ends with them. -/
theorem Grouping.exists_boundary {first more : List String} {groups : List (List String)}
    {p : Position} {tokens : List Token} (h : Grouping (first ++ more) groups)
    (hscans : Scans p (joinLines first).toList tokens) (hzero : bracketDepth tokens = 0)
    (hnonneg : ∀ ts us, tokens = ts ++ us → 0 ≤ bracketDepth ts) :
    ∃ before after, groups = before ++ after ∧ before.flatten = first := by
  induction groups generalizing first p tokens with
  | nil =>
    have hlines : [] = first ++ more := h.flatten_eq
    exact ⟨[], [], rfl, (List.append_eq_nil_iff.mp hlines.symm).1.symm⟩
  | cons group groups ih =>
    by_cases hfirst : first = []
    · exact ⟨[], group :: groups, rfl, hfirst.symm⟩
    by_cases hsame : first = group
    · exact ⟨[group], groups, rfl, by simp [hsame]⟩
    rcases List.append_eq_append_iff.mp h.lines_eq with ⟨behind, rfl, -⟩ | ⟨behind, rfl, hrest⟩
    · -- the group would go on behind the lines, so these are open
      have hbehind : behind ≠ [] := by simpa using hsame
      have hopen := h.open_inside _ List.mem_cons_self first behind rfl hfirst hbehind
      rw [isOpen_of_scans hscans, hzero] at hopen
      cases hopen
    · have hbehind : behind ≠ [] := by simpa using hsame
      have hclosed : isOpen (joinLines group) = false := by
        refine h.closed_head ?_
        rw [hrest]
        exact List.append_ne_nil_of_left_ne_nil hbehind _
      rw [joinLines_append (h.ne_nil group List.mem_cons_self) hbehind, String.toList_append,
        String.toList_append, List.append_assoc] at hscans
      rcases hscans.split_line with ⟨ts, us, rfl, hgroup, hscans'⟩ | hends
      · have hpast : bracketDepth ts = 0 := by
          rw [isOpen_of_scans hgroup, decide_eq_false_iff_not] at hclosed
          have := hnonneg ts us rfl
          omega
        rw [bracketDepth_append, hpast, Int.zero_add] at hzero
        have hnonneg' : ∀ xs ys, us = xs ++ ys → 0 ≤ bracketDepth xs := by
          rintro xs ys rfl
          have hall := hnonneg (ts ++ xs) ys (List.append_assoc _ _ _).symm
          rwa [bracketDepth_append, hpast, Int.zero_add] at hall
        have htail := h.tail
        rw [hrest] at htail
        obtain ⟨before, after, rfl, hflatten⟩ := ih htail hscans' hzero hnonneg'
        exact ⟨group :: before, after, rfl, by rw [List.flatten_cons, hflatten]⟩
      · rw [isOpen_of_endsInString hends] at hclosed
        cases hclosed

/-- **The splitter holds no finished program back.** The brackets of a program are well nested, in
kind as in number; so no text that scans and parses is open; so if the first lines of a session are
a program, a group ends behind the last of them, whatever lines follow. -/
theorem programs_end_groups :
    (∀ tokens program, parse tokens = .ok program → WellNested (brackets tokens)) ∧
      (∀ text tokens program, tokenize text = .ok tokens → parse tokens = .ok program →
        isOpen text = false) ∧
      ∀ (lines : List String) (k : Nat) (tokens : List Token) (program : List Stmt),
        tokenize (joinLines (lines.take k)) = .ok tokens → parse tokens = .ok program →
        ∃ before after, Grouping lines (before ++ after) ∧ before.flatten = lines.take k ∧
          fragments lines = before.map joinLines ++ after.map joinLines := by
  refine ⟨fun _ _ => wellNested_of_parse, fun text tokens program htokens hparse => ?_, ?_⟩
  · rw [isOpen_of_scans (tokenize_eq_ok.mp htokens), (bracketDepth_of_parse hparse).1]
    rfl
  · intro lines k tokens program htokens hparse
    obtain ⟨groups, hgroups, hfragments⟩ := exists_grouping lines
    obtain ⟨hzero, hnonneg⟩ := bracketDepth_of_parse hparse
    have hsplit : Grouping (lines.take k ++ lines.drop k) groups := by
      rw [List.take_append_drop]
      exact hgroups
    obtain ⟨before, after, rfl, hbefore⟩ :=
      hsplit.exists_boundary (tokenize_eq_ok.mp htokens) hzero hnonneg
    exact ⟨before, after, hgroups, hbefore, by rw [hfragments, List.map_append]⟩

/-- A call on two lines ends a group, though the line behind it opens another. -/
theorem programs_end_groups_behind_call :
    let lines := ["f(", "1)", "g("]
    let tokens : List Token := [⟨.identifier "f", "f", ⟨1, 1⟩⟩, ⟨.symbol .leftParen, "(", ⟨1, 2⟩⟩,
      ⟨.integer 1, "1", ⟨2, 1⟩⟩, ⟨.symbol .rightParen, ")", ⟨2, 2⟩⟩]
    tokenize (joinLines (lines.take 2)) = .ok tokens ∧
      (∃ program, parse tokens = .ok program ∧ WellNested (brackets tokens)) ∧
      isOpen (joinLines (lines.take 2)) = false ∧
      ∃ before after, Grouping lines (before ++ after) ∧ before.flatten = ["f(", "1)"] ∧
        fragments lines = before.map joinLines ++ after.map joinLines := by
  intro lines tokens
  have htokens : tokenize (joinLines (lines.take 2)) = .ok tokens := by decide +kernel
  have hparse : parse tokens = .ok [.expr (.call ⟨1, 1⟩ (.var ⟨1, 1⟩ "f")
    [.literal ⟨2, 1⟩ (.int 1)])] := rfl
  exact ⟨htokens, ⟨_, hparse, programs_end_groups.1 _ _ hparse⟩,
    programs_end_groups.2.1 _ _ _ htokens hparse,
    programs_end_groups.2.2 lines 2 _ _ htokens hparse⟩

end TwinScript
