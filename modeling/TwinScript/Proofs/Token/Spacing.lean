import TwinScript.Proofs.Token.Tiling

/-!
# Lexemes behind other gaps

A lexeme is read off its own characters: what stands behind it matters only in that it might go on
with it, and no gap does. So the lexemes of a text may be spaced out in any other way, as long as
none of them touches the next, and the text has the same tokens but for positions.

* `IsClosedGap.gapEnd?_eq`, `SpacedOut.noLonger`: such gaps are passed over, and go on with nothing.
* `SpacedOut.scans`: the lexemes are read again, one by one.
* `spacing_makes_no_difference`: so the tokens of the text are the same up to positions.
-/

namespace TwinScript

/-! ## Other gaps -/

/-- Blanks and comments, each comment with the newline that ends it. Any text may follow. -/
inductive IsClosedGap : List Char → Prop
  | nil : IsClosedGap []
  | blank {c : Char} {gap : List Char} (hc : c ∈ [' ', '\t', '\r', '\n']) (hgap : IsClosedGap gap) :
      IsClosedGap (c :: gap)
  | comment {body gap : List Char} (hbody : '\n' ∉ body) (hgap : IsClosedGap gap) :
      IsClosedGap ('#' :: (body ++ '\n' :: gap))

/-- The text holds the lexemes of the tokens, each behind a gap, and ends in a gap. A gap between
two lexemes is not empty, and the first one neither if another lexeme is right before the text. -/
inductive SpacedOut : Bool → List Token → List Char → Prop
  | nil {behindLexeme : Bool} {gap : List Char} (hgap : IsGap [] gap) :
      SpacedOut behindLexeme [] gap
  | cons {behindLexeme : Bool} {gap text : List Char} {token : Token} {tokens : List Token}
      (hgap : IsClosedGap gap) (hspace : behindLexeme = true → gap ≠ [])
      (hrest : SpacedOut true tokens text) :
      SpacedOut behindLexeme (token :: tokens) (gap ++ (token.lexeme.toList ++ text))

/-- The text `s'` holds the lexemes of the text `s`, which scans, with other gaps before, between
and behind them. All that `s` holds besides its lexemes is such gaps too (`tokens_tile_text`), but
between two of them they may be empty. -/
def Respaced (s s' : String) : Prop :=
  ∃ tokens, tokenize s = .ok tokens ∧ SpacedOut false tokens s'.toList

/-- The tokens stand for the same and are written alike, wherever they are. -/
structure Token.SameLexeme (t t' : Token) : Prop where
  kind_eq : t.kind = t'.kind
  lexeme_eq : t.lexeme = t'.lexeme

/-! ## Reading them -/

/-- A closed gap is passed over, and no comment is open behind it. -/
theorem IsClosedGap.gapEnd?_eq {gap : List Char} (h : IsClosedGap gap) :
    gapEnd? false gap = some false := by
  induction h with
  | nil => rfl
  | blank hc _ ih =>
    rw [gapEnd?, gapStep_of_blank hc]
    exact ih
  | comment hbody _ ih =>
    have hsign : gapStep false '#' = some true := rfl
    rw [gapEnd?, hsign, Option.bind_some, gapEnd?_append, gapEnd?_comment hbody, Option.bind_some]
    exact ih

/-- A gap that is not empty begins as gaps do. -/
theorem IsClosedGap.opensGap {c : Char} {gap : List Char} (h : IsClosedGap (c :: gap)) :
    OpensGap c := by
  cases h with
  | blank hc _ => exact .inl hc
  | comment _ _ => exact .inr rfl

theorem IsGap.opensGap {c : Char} {gap rest : List Char} (h : IsGap rest (c :: gap)) :
    OpensGap c := by
  cases h with
  | blank hc _ => exact .inl hc
  | comment _ _ _ => exact .inr rfl

/-- What begins a gap goes on with no lexeme. -/
theorem OpensGap.noLonger {c : Char} (h : OpensGap c) (cs rest : List Char) :
    NoLonger (c :: cs) rest := by
  refine noLonger_of_stops ?_ cs rest
  simp only [OpensGap, List.mem_cons, List.not_mem_nil, or_false] at h
  rcases h with (rfl | rfl | rfl | rfl) | rfl <;> decide

/-- Lexemes that are spaced out go on with no lexeme before them. -/
theorem SpacedOut.noLonger {tokens : List Token} {text : List Char}
    (h : SpacedOut true tokens text) (rest : List Char) : NoLonger text rest := by
  have hnil : NoLonger [] rest := fun _ _ c hc => by cases hc
  cases h with
  | nil hgap =>
    cases text with
    | nil => exact hnil
    | cons c gap => exact hgap.opensGap.noLonger _ _
  | @cons _ gap _ _ _ hgap hspace _ =>
    cases gap with
    | nil => exact absurd rfl (hspace rfl)
    | cons c gap => exact hgap.opensGap.noLonger _ _

/-- The lexemes of a text that scans are read again where they are spaced out. -/
theorem SpacedOut.scans {behindLexeme : Bool} {tokens : List Token} {text text' : List Char}
    (h : SpacedOut behindLexeme tokens text') {p : Position} (hscans : Scans p text tokens)
    (q : Position) :
    ∃ tokens', Scans q text' tokens' ∧ List.Forall₂ Token.SameLexeme tokens tokens' := by
  induction hscans generalizing behindLexeme text' q with
  | nil =>
    cases h with
    | nil hgap =>
      obtain ⟨_, hend⟩ := hgap.exists_gapEnd?
      exact ⟨[], .nil hend, .nil⟩
  | @cons p gap c cs m tokens _ hc hm _ ih =>
    obtain ⟨tail, hlexeme, -, hagain⟩ := munch_split hm
    cases h with
    | @cons _ gap' text' _ _ hgap' _ hrest =>
      obtain ⟨tokens', hscans', hsame⟩ := ih hrest ((q.afterAll gap').afterAll m.lexeme)
      have hfirst := Scans.cons hgap'.gapEnd?_eq hc (hagain text' (hrest.noLonger _)) hscans'
      have htext : (String.ofList m.lexeme).toList ++ text' = c :: (tail ++ text') := by
        rw [String.toList_ofList, hlexeme, List.cons_append]
      dsimp only
      rw [htext]
      exact ⟨_, hfirst, .cons ⟨rfl, rfl⟩ hsame⟩

/-- **Spacing makes no difference.** The lexemes of a text that scans, with any other gaps before,
between and behind them, are a text with the same tokens up to positions. -/
theorem spacing_makes_no_difference {s s' : String} (h : Respaced s s') :
    ∃ tokens tokens', tokenize s = .ok tokens ∧ tokenize s' = .ok tokens' ∧
      List.Forall₂ Token.SameLexeme tokens tokens' := by
  obtain ⟨tokens, htokens, hspaced⟩ := h
  obtain ⟨tokens', hscans, hsame⟩ := hspaced.scans (tokenize_eq_ok.mp htokens) .start
  exact ⟨tokens, tokens', htokens, tokenize_eq_ok.mpr hscans, hsame⟩

/-- A comparison with comments in it. -/
theorem spacing_makes_no_difference_of_comparison :
    let s := "1<2"
    let s' := "1 # one\n< 2#"
    Respaced s s' ∧ ∃ tokens tokens', tokenize s = .ok tokens ∧ tokenize s' = .ok tokens' ∧
      List.Forall₂ Token.SameLexeme tokens tokens' := by
  intro s s'
  have hone : IsClosedGap " # one\n".toList :=
    .blank (by decide) (@IsClosedGap.comment " one".toList [] (by decide) .nil)
  have hend : SpacedOut true [] ['#'] :=
    .nil (@IsGap.comment [] [] [] List.not_mem_nil (fun c hc => by cases hc) .nil)
  have htwo : SpacedOut true [⟨.integer 2, "2", ⟨1, 3⟩⟩] " 2#".toList :=
    @SpacedOut.cons _ [' '] _ _ _ (.blank (by decide) .nil) (fun _ => nofun) hend
  have hless : SpacedOut true [⟨.symbol .less, "<", ⟨1, 2⟩⟩, ⟨.integer 2, "2", ⟨1, 3⟩⟩]
      " # one\n< 2#".toList :=
    .cons hone (fun _ => nofun) htwo
  have hall : SpacedOut false [⟨.integer 1, "1", ⟨1, 1⟩⟩, ⟨.symbol .less, "<", ⟨1, 2⟩⟩,
      ⟨.integer 2, "2", ⟨1, 3⟩⟩] "1 # one\n< 2#".toList :=
    @SpacedOut.cons _ [] _ ⟨.integer 1, "1", ⟨1, 1⟩⟩ _ .nil (by decide) hless
  have hspaced : Respaced s s' := ⟨_, by decide +kernel, hall⟩
  exact ⟨hspaced, spacing_makes_no_difference hspaced⟩

end TwinScript
