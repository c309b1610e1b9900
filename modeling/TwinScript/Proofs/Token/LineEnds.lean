import TwinScript.Proofs.Token.Scans

/-!
# A text cut at the end of a line

`Scans.append_line` puts two texts together, one on the line below the other. This module takes them
apart again: where a text that scans is cut at a newline, both sides scan to their share of its
tokens, unless the newline stands inside a string. Then the first side breaks off in that string.

* `Scans.elsewhere`: what a text means does not depend on the place where it begins.
* `Scans.split_line`: the two sides of a newline.
-/

namespace TwinScript

/-! ## Where a text begins -/

/-- A text that begins at another place scans to tokens of the same kinds. -/
theorem Scans.elsewhere {p : Position} {text : List Char} {tokens : List Token}
    (h : Scans p text tokens) (q : Position) :
    ∃ tokens', Scans q text tokens' ∧ tokens'.map (·.kind) = tokens.map (·.kind) := by
  induction h generalizing q with
  | nil hgap => exact ⟨[], .nil hgap, rfl⟩
  | @cons p gap c cs m tokens hgap hc hm _ ih =>
    obtain ⟨tokens', hscans, hkinds⟩ := ih ((q.afterAll gap).afterAll m.lexeme)
    refine ⟨_, .cons hgap hc hm hscans, ?_⟩
    rw [List.map_cons, List.map_cons, hkinds]

/-! ## Texts that break off in a string -/

/-- The text opens a string and ends before the string is closed, wherever the text begins. -/
def EndsInString (text : List Char) : Prop :=
  ∀ done p, ∃ pos, (scanOn done p text).error? = some ⟨.unterminatedString, pos⟩

theorem nextToken_of_fault {gap : List Char} (h : gapEnd? false gap = some false) {c : Char}
    (hc : gapStep false c = none) {cs : List Char} {fault : ScanFault}
    (hfault : munch c cs = .error fault) (p : Position) :
    nextToken p (gap ++ c :: cs) = some (.error ⟨fault, p.afterAll gap⟩) := by
  unfold nextToken
  rw [skipGap_append h, skipGap_of_none hc]
  dsimp only
  rw [hfault]

theorem EndsInString.of_munch {gap : List Char} (h : gapEnd? false gap = some false) {c : Char}
    (hc : gapStep false c = none) {cs : List Char}
    (hfault : munch c cs = .error .unterminatedString) : EndsInString (gap ++ c :: cs) := by
  intro done p
  unfold scanOn
  rw [nextToken_of_fault h hc hfault]
  exact ⟨p.afterAll gap, rfl⟩

/-- A lexeme in front of a text that breaks off does not close it. -/
theorem EndsInString.behind_lexeme {gap : List Char} (h : gapEnd? false gap = some false) {c : Char}
    (hc : gapStep false c = none) {cs : List Char} {m : Munch} (hm : munch c cs = .ok m)
    (hrest : EndsInString m.rest) : EndsInString (gap ++ c :: cs) := by
  intro done p
  unfold scanOn
  rw [nextToken_of_munch h hc hm]
  exact hrest _ _

/-! ## Newlines in lexemes -/

/-- Of all lexemes, only strings hold newlines. -/
theorem munchString_of_newline {c : Char} {cs : List Char} {m : Munch} (h : munch c cs = .ok m)
    (hline : '\n' ∈ m.lexeme) : isQuote c = true ∧ munchString c [] [c] cs = some m := by
  rcases munch_cases h with ⟨s, -, rfl⟩ | hstring | ⟨hdigit, hm⟩ | ⟨hword, rfl⟩
  · exact absurd hline s.newline_notMem_chars
  · exact hstring
  · rw [(munchInteger_eq_ok hm).1, List.mem_cons] at hline
    rcases hline with rfl | hline
    · exact absurd hdigit (by decide)
    · exact absurd (List.mem_takeWhile_imp hline) (by decide)
  · rcases List.mem_cons.mp hline with rfl | hline
    · exact absurd hword (by decide)
    · exact absurd (List.mem_takeWhile_imp hline) (by decide)

/-- No string closes before its end. -/
theorem munchString_eq_none {quote : Char} (hquote : quote ≠ '\\') {value lexeme cs ds : List Char}
    {m : Munch} (h : munchString quote value lexeme (cs ++ ds) = some m)
    (hend : m.rest.length < ds.length) : munchString quote value lexeme cs = none := by
  by_contra hcloses
  obtain ⟨m', hm'⟩ := Option.ne_none_iff_exists'.mp hcloses
  obtain ⟨taken, hcs, -, hagain⟩ := munchString_split hquote hm'
  have hearly := hagain (m'.rest ++ ds)
  rw [← List.append_assoc, ← hcs, h] at hearly
  have hrest : m.rest = m'.rest ++ ds := congrArg Munch.rest (Option.some.inj hearly)
  rw [hrest, List.length_append] at hend
  omega

/-! ## The two sides of a newline -/

/-- A mark in a text that is put together of two stands in the first or in the second. -/
theorem append_eq_append_cons {α : Type} {as bs front back : List α} {x : α}
    (h : as ++ bs = front ++ x :: back) :
    (∃ more, front = as ++ more ∧ bs = more ++ x :: back) ∨
      ∃ more, as = front ++ x :: more ∧ back = more ++ bs := by
  rcases List.append_eq_append_iff.mp h with hsecond | ⟨more, has, hbs⟩
  · exact .inl hsecond
  · cases more with
    | nil => exact .inl ⟨[], by simpa using has.symm, hbs.symm⟩
    | cons y more =>
      obtain ⟨rfl, hback⟩ := List.cons.inj hbs
      exact .inr ⟨more, has, hback⟩

/-- A gap with a newline in it is a gap on both sides. -/
theorem gapEnd?_split_line {front back : List Char} {inComment still : Bool}
    (h : gapEnd? inComment (front ++ '\n' :: back) = some still) :
    (∃ behind, gapEnd? inComment front = some behind) ∧ gapEnd? false back = some still := by
  rw [gapEnd?_append] at h
  obtain ⟨behind, hfront, hback⟩ := Option.bind_eq_some_iff.mp h
  refine ⟨⟨behind, hfront⟩, ?_⟩
  cases behind <;> exact hback

/-- The beginning of a text goes on with no lexeme that the text does not go on with. -/
theorem noLonger_front (front back : List Char) : NoLonger front (front ++ back) := by
  cases front with
  | nil =>
    intro _ _ c hc
    cases hc
  | cons c cs => exact .of_head rfl

/-- **A text cut at a newline.** Both sides scan to their share of the tokens, or the first side
breaks off in a string that goes on behind the newline. -/
theorem Scans.split_line {p : Position} {first second : List Char} {tokens : List Token}
    (h : Scans p (first ++ '\n' :: second) tokens) :
    (∃ tokens₁ tokens₂, tokens = tokens₁ ++ tokens₂ ∧ Scans p first tokens₁ ∧
      Scans ((p.afterAll first).after '\n') second tokens₂) ∨ EndsInString first := by
  generalize htext : first ++ '\n' :: second = text at h
  induction h generalizing first with
  | nil hgap =>
    subst htext
    obtain ⟨⟨_, hfirst⟩, hsecond⟩ := gapEnd?_split_line hgap
    exact .inl ⟨[], [], rfl, .nil hfirst, .nil hsecond⟩
  | @cons p gap c cs m tokens hgap hc hm hrest ih =>
    have hnot : c ≠ '\n' := by
      rintro rfl
      cases hc
    rcases append_eq_append_cons htext.symm with ⟨behind, rfl, hbehind⟩ | ⟨more, rfl, rfl⟩
    · -- the newline stands behind the gap, so in the lexeme or behind it
      obtain ⟨inside, rfl, rfl⟩ :
          ∃ inside, behind = c :: inside ∧ cs = inside ++ '\n' :: second := by
        cases behind with
        | nil => exact absurd (List.cons.inj hbehind).1 hnot
        | cons d inside =>
          obtain ⟨rfl, rfl⟩ := List.cons.inj hbehind
          exact ⟨inside, rfl, rfl⟩
      obtain ⟨tail, hlexeme, hcs, hagain⟩ := munch_split hm
      rcases append_eq_append_cons hcs.symm with ⟨more, rfl, hmore⟩ | ⟨more, rfl, hsecond⟩
      · have hfront : munch c (tail ++ more) = .ok { m with rest := more } := by
          refine hagain more ?_
          rw [hmore]
          exact noLonger_front more _
        rcases ih hmore.symm with ⟨tokens₁, tokens₂, rfl, h₁, h₂⟩ | hends
        · refine .inl ⟨_, tokens₂, rfl, .cons hgap hc hfront h₁, ?_⟩
          have hpos : p.afterAll (gap ++ c :: (tail ++ more)) =
              ((p.afterAll gap).afterAll m.lexeme).afterAll more := by
            rw [hlexeme, ← Position.afterAll_append, ← Position.afterAll_append, ← List.cons_append]
          rw [hpos]
          exact h₂
        · exact .inr (hends.behind_lexeme hgap hc hfront)
      · -- the lexeme is a string, and the newline is a part of it
        obtain ⟨hquote, hstring⟩ := munchString_of_newline hm (by simp [hlexeme])
        have hopen : munchString c [] [c] inside = none := by
          refine munchString_eq_none (isQuote_ne_backslash hquote) hstring ?_
          rw [hsecond, List.length_cons, List.length_append]
          omega
        refine .inr (.of_munch hgap hc ?_)
        unfold munch
        rw [Symbol.opening?_eq_none (.inl hquote)]
        dsimp only
        rw [if_pos hquote, hopen]
    · obtain ⟨⟨_, hfirst⟩, hmore⟩ := gapEnd?_split_line hgap
      refine .inl ⟨[], _, rfl, .nil hfirst, ?_⟩
      have hpos : p.afterAll (first ++ '\n' :: more) =
          ((p.afterAll first).after '\n').afterAll more := by
        rw [Position.afterAll_append, Position.afterAll_cons]
      rw [hpos] at hrest ⊢
      exact .cons hmore hc hm hrest

end TwinScript
