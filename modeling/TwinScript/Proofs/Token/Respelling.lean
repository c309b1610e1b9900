import TwinScript.Proofs.Syntax.Likeness
import TwinScript.Proofs.Token.Scans

/-!
# Texts in other spellings

`Respelled s s'` says that `s'` is the text `s` with the lexemes of some of its reserved words
replaced by other spellings of the same words. Such a text has the same tokens but for lexemes and
columns (`Respelled.tokenize`): a spelling is a word, so it ends where the one that it replaces did,
and it begins with a letter, so nothing before it goes on into it.
-/

namespace TwinScript

/-- The texts that begin at `p` are the same, except that the lexemes of reserved words among
`tokens` may be spelled in another way. -/
inductive Respelling : Position → List Token → List Char → List Char → Prop
  | nil {p : Position} (text : List Char) : Respelling p [] text text
  | keep {p : Position} {gap lexeme text text' : List Char} {token : Token} {tokens : List Token}
      (hpos : token.pos = p.afterAll gap) (hlexeme : token.lexeme = String.ofList lexeme)
      (hrest : Respelling (token.pos.afterAll lexeme) tokens text text') :
      Respelling p (token :: tokens) (gap ++ (lexeme ++ text)) (gap ++ (lexeme ++ text'))
  | respell {p : Position} {gap lexeme spelling text text' : List Char} {token : Token}
      {tokens : List Token} {k : Keyword} (hk : token.kind = .keyword k)
      (hspelling : k.isSpelledBy (String.ofList spelling) = true)
      (hpos : token.pos = p.afterAll gap) (hlexeme : token.lexeme = String.ofList lexeme)
      (hrest : Respelling (token.pos.afterAll lexeme) tokens text text') :
      Respelling p (token :: tokens) (gap ++ (lexeme ++ text)) (gap ++ (spelling ++ text'))

/-- The text `s'` is the text `s`, which scans, with some of its reserved words spelled in another
way. -/
def Respelled (s s' : String) : Prop :=
  ∃ tokens, tokenize s = .ok tokens ∧ Respelling .start tokens s.toList s'.toList

/-- Tokens of one kind on one line. -/
def Token.SameLine (t t' : Token) : Prop := t.kind = t'.kind ∧ t.pos.SameLine t'.pos

/-- Where a text puts the lexeme of its first token, its scan does. -/
theorem Scans.cons_inv_at {p : Position} {gap lexeme text : List Char} {token : Token}
    {tokens : List Token} (h : Scans p (gap ++ (lexeme ++ text)) (token :: tokens))
    (hpos : token.pos = p.afterAll gap) (hlexeme : token.lexeme = String.ofList lexeme) :
    ∃ c tail, lexeme = c :: tail ∧ gapEnd? false gap = some false ∧ gapStep false c = none ∧
      munch c (tail ++ text) = .ok ⟨token.kind, lexeme, text⟩ ∧
      Scans (token.pos.afterAll lexeme) text tokens := by
  obtain ⟨gap', c, cs, m, htext, hgap, hc, hm, rfl, hrest⟩ := h.cons_inv
  obtain ⟨rfl, hlater⟩ := Position.append_inj_of_afterAll htext hpos.symm
  obtain rfl : m.lexeme = lexeme := String.ofList_injective hlexeme
  obtain ⟨tail, htail, hcs, -⟩ := munch_split hm
  rw [htail, hcs, List.cons_append] at hlater
  obtain rfl : text = m.rest := by simpa using hlater
  refine ⟨c, tail, htail, hgap, hc, ?_, hrest⟩
  rw [← hcs]
  exact hm

/-! ## What the spellings have in common -/

namespace Keyword

variable {k : Keyword}

theorem spelling_ne_nil {spelling : List Char}
    (h : k.isSpelledBy (String.ofList spelling) = true) : spelling ≠ [] := by
  have hne := (spelling_letters h).2.1
  rw [String.toList_ofList] at hne
  exact hne

/-- A spelling opens with a letter. -/
theorem spelling_head {c : Char} {tail : List Char}
    (h : k.isSpelledBy (String.ofList (c :: tail)) = true) :
    isWordPart c = true ∧ c.isDigit = false ∧ c ≠ '=' ∧ gapStep false c = none := by
  have hletters := (spelling_letters h).2.2
  rw [String.toList_ofList] at hletters
  have hc := List.all_eq_true.mp hletters c List.mem_cons_self
  simp only [isSpellingLetter, Bool.and_eq_true, Bool.not_eq_true', bne_iff_ne, ne_eq,
    Option.isNone_iff_eq_none] at hc
  obtain ⟨⟨⟨⟨⟨⟨-, hpart⟩, -⟩, hdigit⟩, hequal⟩, -⟩, hgap⟩ := hc
  exact ⟨hpart, hdigit, hequal, hgap⟩

/-- A spelling stays on its line. -/
theorem spelling_count {spelling : List Char}
    (h : k.isSpelledBy (String.ofList spelling) = true) : spelling.count '\n' = 0 := by
  have hletters := (spelling_letters h).2.2
  rw [String.toList_ofList] at hletters
  rw [List.count_eq_zero]
  intro hmem
  have hletter := List.all_eq_true.mp hletters '\n' hmem
  simp [isSpellingLetter] at hletter

end Keyword

/-- One letter goes on with no lexeme that another letter does not go on with. -/
theorem noLonger_letter {c c' : Char} (hpart : isWordPart c = true) (hdigit : c'.isDigit = false)
    (hequal : c' ≠ '=') (rest rest' : List Char) : NoLonger (c' :: rest') (c :: rest) := by
  intro goes hgoes d hd hon
  cases hd
  simp only [lexemeGoers, List.mem_cons, List.not_mem_nil, or_false] at hgoes
  rcases hgoes with rfl | rfl | rfl
  · rw [hdigit] at hon
    cases hon
  · simpa using hpart
  · simp only [beq_iff_eq] at hon
    exact absurd hon hequal

/-- A respelled text goes on with no lexeme before it that the text did not go on with. -/
theorem Respelling.noLonger {p : Position} {tokens : List Token} {text text' : List Char}
    (h : Respelling p tokens text text') (hscans : Scans p text tokens) :
    NoLonger text' text := by
  cases h with
  | nil => exact .refl _
  | @keep _ gap lexeme text text' token tokens hpos hlexeme hrest =>
    obtain ⟨c, tail, rfl, -⟩ := hscans.cons_inv_at hpos hlexeme
    refine .of_head ?_
    cases gap <;> rfl
  | @respell _ gap lexeme spelling text text' token tokens k hk hspelling hpos hlexeme hrest =>
    obtain ⟨c, tail, rfl, -, -, hm, -⟩ := hscans.cons_inv_at hpos hlexeme
    obtain ⟨c', tail', rfl⟩ := List.exists_cons_of_ne_nil (Keyword.spelling_ne_nil hspelling)
    have hpart := (Keyword.spelling_head (munch_keyword hm hk).1).1
    obtain ⟨-, hdigit, hequal, -⟩ := Keyword.spelling_head hspelling
    cases gap with
    | nil => exact noLonger_letter hpart hdigit hequal _ _
    | cons d ds => exact .of_head rfl

/-! ## Scanning respelled texts -/

/-- A respelled text scans, from the same line on, to tokens of the same kinds on the same lines. -/
theorem Respelling.scans {p : Position} {tokens : List Token} {text text' : List Char}
    (h : Respelling p tokens text text') (hscans : Scans p text tokens) {q : Position}
    (hline : p.SameLine q) :
    ∃ tokens', Scans q text' tokens' ∧ List.Forall₂ Token.SameLine tokens tokens' := by
  induction h generalizing q with
  | nil text =>
    cases hscans with
    | nil hgap => exact ⟨[], .nil hgap, .nil⟩
  | @keep p gap lexeme text text' token tokens hpos hlexeme hrest ih =>
    obtain ⟨c, tail, rfl, hgap, hc, hm, hlater⟩ := hscans.cons_inv_at hpos hlexeme
    have hstart : token.pos.SameLine (q.afterAll gap) := by
      unfold Position.SameLine at hline ⊢
      rw [hpos, Position.line_afterAll, Position.line_afterAll, hline]
    have hnext : (token.pos.afterAll (c :: tail)).SameLine
        ((q.afterAll gap).afterAll (c :: tail)) := by
      unfold Position.SameLine at hstart ⊢
      rw [Position.line_afterAll, Position.line_afterAll, hstart]
    obtain ⟨tokens', hscans', hsame⟩ := ih hlater hnext
    obtain ⟨tail', htail, hsplit, hagain⟩ := munch_split hm
    obtain rfl : tail = tail' := by simpa using htail
    exact ⟨_, .cons hgap hc (hagain text' (hrest.noLonger hlater)) hscans',
      .cons ⟨rfl, hstart⟩ hsame⟩
  | @respell p gap lexeme spelling text text' token tokens k hk hspelling hpos hlexeme hrest ih =>
    obtain ⟨c, tail, rfl, hgap, hc, hm, hlater⟩ := hscans.cons_inv_at hpos hlexeme
    obtain ⟨hspelled, hend⟩ := munch_keyword hm hk
    obtain ⟨c', tail', rfl⟩ := List.exists_cons_of_ne_nil (Keyword.spelling_ne_nil hspelling)
    obtain ⟨-, -, -, hc'⟩ := Keyword.spelling_head hspelling
    have hstart : token.pos.SameLine (q.afterAll gap) := by
      unfold Position.SameLine at hline ⊢
      rw [hpos, Position.line_afterAll, Position.line_afterAll, hline]
    have hnext : (token.pos.afterAll (c :: tail)).SameLine
        ((q.afterAll gap).afterAll (c' :: tail')) := by
      unfold Position.SameLine at hstart ⊢
      rw [Position.line_afterAll, Position.line_afterAll, hstart, Keyword.spelling_count hspelled,
        Keyword.spelling_count hspelling]
    obtain ⟨tokens', hscans', hsame⟩ := ih hlater hnext
    -- no word goes on behind the new spelling, as none went on behind the old one
    have hend' : ∀ d, text'.head? = some d → isWordPart d = false := by
      intro d hd
      by_contra hpart
      have hon := hrest.noLonger hlater isWordPart (by simp [lexemeGoers]) d hd (by simpa using hpart)
      cases htext : text.head? with
      | none => simp [htext] at hon
      | some d' =>
        have hd' := hend d' htext
        simp [htext, hd'] at hon
    exact ⟨_, .cons hgap hc' (munch_spelling hspelling hend') hscans', .cons ⟨hk, hstart⟩ hsame⟩

/-- **A respelled text scans alike**: to as many tokens, of the same kinds and on the same lines. -/
theorem Respelled.tokenize {s s' : String} (h : Respelled s s') :
    ∃ tokens tokens', TwinScript.tokenize s = .ok tokens ∧ TwinScript.tokenize s' = .ok tokens' ∧
      List.Forall₂ Token.SameLine tokens tokens' := by
  obtain ⟨tokens, htokens, hrespelling⟩ := h
  obtain ⟨tokens', hscans, hsame⟩ := hrespelling.scans (tokenize_eq_ok.mp htokens) rfl
  exact ⟨tokens, tokens', htokens, tokenize_eq_ok.mpr hscans, hsame⟩

end TwinScript
