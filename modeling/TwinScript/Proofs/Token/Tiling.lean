import TwinScript.Proofs.Token.Scans
import Mathlib.Data.List.Induction

/-!
# Tokens tile their text

The scanner counts positions as it passes over characters, one character at a time. Said of the text
as a whole: a text is a gap, a lexeme, a gap, a lexeme and so on, as far as it can be read; a gap is
nothing but blanks and comments (`IsGap`), and each token stands where its lexeme does, by the
newlines before it and the characters since the last of them (`Position.behind`).

* `Position.start_afterAll`: the position counted is the position of the place.
* `isGap_of_gapEnd?`, `IsGap.exists_gapEnd?`: what is passed over is blanks and comments.
* `tokens_tile_text`: how far the tokens of a text go, and what stands behind the last of them.
-/

namespace TwinScript

/-! ## Places in a text -/

/-- The place behind the characters `before` that a text begins with: its line by the newlines among
them, and its column by the characters since the last newline. -/
def Position.behind (before : List Char) : Position :=
  ⟨1 + before.count '\n', 1 + (before.reverse.takeWhile (· != '\n')).length⟩

/-- Counting character by character leads to the place behind them. -/
theorem Position.start_afterAll (before : List Char) :
    Position.start.afterAll before = .behind before := by
  induction before using List.reverseRecOn with
  | nil => rfl
  | append_singleton before c ih =>
    rw [afterAll_append, ih, afterAll_cons, afterAll_nil]
    unfold after behind
    by_cases hc : c = '\n'
    · simp [hc, Nat.add_assoc]
    · simp [hc, Nat.add_comm]

/-! ## Gaps -/

/-- The character begins a gap: it is a blank, or the sign of a comment. -/
def OpensGap (c : Char) : Prop := c ∈ [' ', '\t', '\r', '\n'] ∨ c = '#'

/-- Blanks and comments, as they stand before the text `rest`. A comment goes from its sign up to the
next newline, which is no part of it, or to the end of the text. -/
inductive IsGap (rest : List Char) : List Char → Prop
  | nil : IsGap rest []
  | blank {c : Char} {gap : List Char} (hc : c ∈ [' ', '\t', '\r', '\n']) (hgap : IsGap rest gap) :
      IsGap rest (c :: gap)
  | comment {body gap : List Char} (hbody : '\n' ∉ body)
      (hend : ∀ c, (gap ++ rest).head? = some c → c = '\n') (hgap : IsGap rest gap) :
      IsGap rest ('#' :: (body ++ gap))

theorem isBlank_iff (c : Char) : isBlank c = true ↔ c ∈ [' ', '\t', '\r', '\n'] := by
  simp only [isBlank, Bool.or_eq_true, beq_iff_eq, List.mem_cons, List.not_mem_nil, or_false]
  tauto

/-- Outside a comment, a blank is passed over. -/
theorem gapStep_of_blank {c : Char} (hc : c ∈ [' ', '\t', '\r', '\n']) :
    gapStep false c = some false := by
  have hsign : c ≠ '#' := by
    rintro rfl
    exact absurd hc (by decide)
  simp [gapStep, hsign, (isBlank_iff c).mpr hc]

/-- Outside a comment, the characters that are passed over are those that begin a gap. -/
theorem gapStep_eq_none_iff (c : Char) : gapStep false c = none ↔ ¬ OpensGap c := by
  unfold gapStep OpensGap
  rw [← isBlank_iff]
  by_cases hsign : c = '#' <;> by_cases hblank : isBlank c = true <;> simp [hsign, hblank]

/-- What is passed over is blanks and comments. A comment that is still open behind it has come to the
end of the text. Inside a comment, what is passed over is the rest of that first. -/
theorem isGap_of_gapEnd? {rest gap : List Char} {inComment still : Bool}
    (h : gapEnd? inComment gap = some still) (hopen : still = true → rest = []) :
    (inComment = false → IsGap rest gap) ∧
      (inComment = true → ∃ body more, gap = body ++ more ∧ '\n' ∉ body ∧
        (∀ c, (more ++ rest).head? = some c → c = '\n') ∧ IsGap rest more) := by
  induction gap generalizing inComment with
  | nil =>
    cases h
    refine ⟨fun _ => .nil, fun hin => ⟨[], [], rfl, List.not_mem_nil, ?_, .nil⟩⟩
    rw [hopen hin]
    intro c hc
    cases hc
  | cons c cs ih =>
    rw [gapEnd?] at h
    obtain ⟨next, hstep, hrest⟩ := Option.bind_eq_some_iff.mp h
    obtain ⟨houtside, hinside⟩ := ih hrest
    constructor
    · rintro rfl
      unfold gapStep at hstep
      rw [if_neg Bool.false_ne_true] at hstep
      by_cases hsign : c = '#'
      · subst hsign
        cases hstep
        obtain ⟨body, more, rfl, hbody, hend, hmore⟩ := hinside rfl
        exact .comment hbody hend hmore
      · by_cases hblank : isBlank c = true
        · simp only [beq_iff_eq, hsign, hblank, if_true, if_false] at hstep
          cases hstep
          exact .blank ((isBlank_iff c).mp hblank) (houtside rfl)
        · simp [hsign, hblank] at hstep
    · rintro rfl
      obtain rfl : (c != '\n') = next := by simpa [gapStep] using hstep
      by_cases hline : c = '\n'
      · subst hline
        refine ⟨[], '\n' :: cs, rfl, List.not_mem_nil, fun d hd => ?_, ?_⟩
        · cases hd
          rfl
        · exact .blank (by simp) (houtside (by decide))
      · obtain ⟨body, more, rfl, hbody, hend, hmore⟩ := hinside (by simp [hline])
        refine ⟨c :: body, more, rfl, ?_, hend, hmore⟩
        simp [Ne.symm hline, hbody]

/-- A comment goes on as long as no newline ends it. -/
theorem gapEnd?_comment {body : List Char} (hbody : '\n' ∉ body) : gapEnd? true body = some true := by
  induction body with
  | nil => rfl
  | cons c cs ih =>
    have hc : '\n' ≠ c := List.ne_of_not_mem_cons hbody
    have hcs : '\n' ∉ cs := List.not_mem_of_not_mem_cons hbody
    have hstep : gapStep true c = some true := by simp [gapStep, hc.symm]
    rw [gapEnd?, hstep]
    exact ih hcs

/-- Blanks and comments are passed over. -/
theorem IsGap.exists_gapEnd? {rest gap : List Char} (h : IsGap rest gap) :
    ∃ still, gapEnd? false gap = some still := by
  induction h with
  | nil => exact ⟨false, rfl⟩
  | @blank c gap hc _ ih =>
    rw [gapEnd?, gapStep_of_blank hc]
    exact ih
  | @comment body gap hbody hend _ ih =>
    have hstep : gapStep false '#' = some true := rfl
    rw [gapEnd?, hstep, Option.bind_some, gapEnd?_append, gapEnd?_comment hbody, Option.bind_some]
    cases gap with
    | nil => exact ⟨true, rfl⟩
    | cons c cs =>
      -- a newline ends the comment, and is a blank by itself
      obtain rfl := hend c rfl
      exact ih

/-! ## Tokens -/

/-- The tokens are the lexemes of the first part `done` of a text, each behind a gap, and each read
as far as it goes. -/
inductive Tiled (text : List Char) : List Char → List Token → Prop
  | nil : Tiled text [] []
  | snoc {done gap tail rest : List Char} {c : Char} {kind : Token.Kind} {tokens : List Token}
      (h : Tiled text done tokens) (htext : text = done ++ gap ++ (c :: tail) ++ rest)
      (hgap : IsGap (c :: tail ++ rest) gap) (hc : ¬ OpensGap c)
      (hread : munch c (tail ++ rest) = .ok ⟨kind, c :: tail, rest⟩) :
      Tiled text (done ++ gap ++ (c :: tail))
        (tokens ++ [⟨kind, String.ofList (c :: tail), .behind (done ++ gap)⟩])

/-- How a scan goes on that has read the first part `done` of a text: its tokens are the lexemes of
some longer part. It ends where nothing but a gap is left of the text, or where no lexeme can be read
behind a gap. -/
theorem scanOn_tiles {text done rest : List Char} {found : List Token} {p : Position}
    (htiled : Tiled text done found.reverse) (htext : text = done ++ rest)
    (hp : p = .behind done) :
    ∃ read after, text = read ++ after ∧ Tiled text read (scanOn found p rest).tokens ∧
      ((scanOn found p rest).error? = none ∧ IsGap [] after ∨
        ∃ e gap c cs, (scanOn found p rest).error? = some e ∧ ¬ IsGap [] after ∧
          after = gap ++ c :: cs ∧ IsGap (c :: cs) gap ∧ ¬ OpensGap c ∧
          munch c cs = .error e.fault ∧ e.pos = .behind (read ++ gap)) := by
  fun_induction scanOn found p rest generalizing done with
  | case1 found p rest hnext =>
    obtain ⟨still, hgap⟩ := gap_of_nextToken hnext
    exact ⟨done, rest, htext, htiled, .inl ⟨rfl, (isGap_of_gapEnd? hgap fun _ => rfl).1 rfl⟩⟩
  | case2 found p rest e hnext =>
    have hmore : ¬ IsGap [] rest := by
      intro hgap
      obtain ⟨still, hstill⟩ := hgap.exists_gapEnd?
      rw [nextToken_of_gap hstill] at hnext
      cases hnext
    obtain ⟨gap, c, cs, hgap, hc, hfault, hrest, hpos⟩ := fault_of_nextToken hnext
    refine ⟨done, rest, htext, htiled, .inr ⟨e, gap, c, cs, rfl, hmore, hrest, ?_, ?_, hfault, ?_⟩⟩
    · exact (isGap_of_gapEnd? hgap fun h => by cases h).1 rfl
    · exact (gapStep_eq_none_iff c).mp hc
    · rw [hpos, hp, ← Position.start_afterAll, ← Position.start_afterAll,
        Position.afterAll_append]
  | case3 found p rest a hnext ih =>
    obtain ⟨gap, c, cs, m, hgap, hc, hm, rfl, rfl⟩ := munch_of_nextToken hnext
    obtain ⟨tail, hlexeme, hcs, -⟩ := munch_split hm
    have hplace : p.afterAll gap = .behind (done ++ gap) := by
      rw [hp, ← Position.start_afterAll, ← Position.start_afterAll, Position.afterAll_append]
    have hbehind : (p.afterAll gap).afterAll m.lexeme = .behind (done ++ gap ++ c :: tail) := by
      rw [hplace, hlexeme, ← Position.start_afterAll, ← Position.start_afterAll,
        ← Position.afterAll_append]
    have hsplit : text = done ++ gap ++ c :: tail ++ m.rest := by
      rw [htext, hcs]
      simp
    refine ih ?_ hsplit hbehind
    rw [List.reverse_cons, hplace, hlexeme]
    refine .snoc htiled hsplit ?_ ((gapStep_eq_none_iff c).mp hc) ?_
    · rw [List.cons_append, ← hcs]
      exact (isGap_of_gapEnd? hgap fun h => by cases h).1 rfl
    · rw [← hcs, hm, ← hlexeme]

/-- **Tokens tile their text.** The tokens that scanning a text finds are, in order, the lexemes of a
first part of it: before each stands nothing but blanks and comments, each is written as the text is
there, and has the position of that place. Scanning succeeds exactly if the rest of the text is
blanks and comments as well; otherwise it fails at the first character behind those that follow the
last token. -/
theorem tokens_tile_text (text : String) :
    ∃ read after, text.toList = read ++ after ∧ Tiled text.toList read (scan text).tokens ∧
      (tokenize text = .ok (scan text).tokens ↔ IsGap [] after) ∧
      ∀ e, tokenize text = .error e →
        ∃ gap c cs, after = gap ++ c :: cs ∧ IsGap (c :: cs) gap ∧ ¬ OpensGap c ∧
          munch c cs = .error e.fault ∧ e.pos = .behind (read ++ gap) := by
  have hstart : Tiled text.toList [] ([] : List Token).reverse := .nil
  obtain ⟨read, after, htext, htiled, hend⟩ := scanOn_tiles hstart (List.nil_append _).symm rfl
  refine ⟨read, after, htext, htiled, ?_⟩
  unfold tokenize
  rcases hend with ⟨hnone, hgap⟩ | ⟨e, gap, c, cs, hsome, hmore, hafter, hgap, hc, hfault, hpos⟩
  · have hdone : (scan text).error? = none := hnone
    simp only [hdone]
    exact ⟨iff_of_true trivial hgap, fun e he => by cases he⟩
  · have hfailed : (scan text).error? = some e := hsome
    simp only [hfailed]
    refine ⟨iff_of_false (fun h => by cases h) hmore, fun e' he => ?_⟩
    cases he
    exact ⟨gap, c, cs, hafter, hgap, hc, hfault, hpos⟩

end TwinScript
