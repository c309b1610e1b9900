import TwinScript.Proofs.Token.Quotation
import TwinScript.Proofs.Token.Respelling

/-!
# Newlines in strings

A newline in a string can stand there as it is or as an escape. `NewlinesReplaced s s'` says that
`s'` is the text `s` with some of the newlines in its strings written as escapes. Such a text has
the same tokens, but for lexemes and positions: its strings may end on an earlier line, and
everything behind them moves up with that (`SameGaps`).

* `munchString_escaped`: a string reads as the same value.
* `NewlinesReplaced.tokenize`: the text has tokens of the same kinds, with the same gaps in between.
-/

namespace TwinScript

/-! ## Writing newlines as escapes -/

/-- The characters between the quotation marks of a string, and the same with some newlines written
as escapes. What stands behind a backslash is a part of that escape already. -/
inductive NewlinesEscaped : List Char → List Char → Prop
  | nil : NewlinesEscaped [] []
  | plain {c : Char} {cs cs' : List Char} (hc : c ≠ '\\') (h : NewlinesEscaped cs cs') :
      NewlinesEscaped (c :: cs) (c :: cs')
  | escape (c : Char) {cs cs' : List Char} (h : NewlinesEscaped cs cs') :
      NewlinesEscaped ('\\' :: c :: cs) ('\\' :: c :: cs')
  | newline {cs cs' : List Char} (h : NewlinesEscaped cs cs') :
      NewlinesEscaped ('\n' :: cs) ('\\' :: 'n' :: cs')

/-- The lexeme of a token of that kind, and the same with some newlines written as escapes if it is
a string. -/
inductive LexemeEscaped : Token.Kind → List Char → List Char → Prop
  | same (kind : Token.Kind) (lexeme : List Char) : LexemeEscaped kind lexeme lexeme
  | string {value : String} {quote : Char} {body body' : List Char}
      (h : NewlinesEscaped body body') : LexemeEscaped (.string value) (quote :: (body ++ [quote]))
        (quote :: (body' ++ [quote]))

/-- The texts that begin at `p` are the same, except that newlines in the strings among `tokens` may
be written as escapes. -/
inductive LiteralsEscaped : Position → List Token → List Char → List Char → Prop
  | nil {p : Position} (text : List Char) : LiteralsEscaped p [] text text
  | cons {p : Position} {gap lexeme lexeme' text text' : List Char} {token : Token}
      {tokens : List Token} (hpos : token.pos = p.afterAll gap)
      (hlexeme : token.lexeme = String.ofList lexeme)
      (hescaped : LexemeEscaped token.kind lexeme lexeme')
      (hrest : LiteralsEscaped (token.pos.afterAll lexeme) tokens text text') :
      LiteralsEscaped p (token :: tokens) (gap ++ (lexeme ++ text)) (gap ++ (lexeme' ++ text'))

/-- The text `s'` is the text `s`, which scans, with some of the newlines in its strings written as
escapes. -/
def NewlinesReplaced (s s' : String) : Prop :=
  ∃ tokens, tokenize s = .ok tokens ∧ LiteralsEscaped .start tokens s.toList s'.toList

/-- A text may stay as it is. -/
theorem LiteralsEscaped.refl {p : Position} {text : List Char} {tokens : List Token}
    (h : Scans p text tokens) : LiteralsEscaped p tokens text text := by
  induction h with
  | nil => exact .nil _
  | @cons p gap c cs m tokens _ _ hm _ ih =>
    obtain ⟨tail, hlexeme, hcs, -⟩ := munch_split hm
    have htext : gap ++ c :: cs = gap ++ (m.lexeme ++ m.rest) := by
      rw [hlexeme, hcs, List.cons_append]
    rw [htext]
    exact .cons rfl rfl (.same _ _) ih

/-- A text may change in the string with which it begins. -/
theorem newlinesReplaced_of_string (quote : Char) (rest : List Char) {s s' lexeme value : String}
    {body body' : List Char} {tokens : List Token} (hbody : NewlinesEscaped body body')
    (hlexeme : lexeme = String.ofList (quote :: (body ++ [quote])))
    (hs : s.toList = quote :: (body ++ [quote]) ++ rest)
    (hs' : s'.toList = quote :: (body' ++ [quote]) ++ rest)
    (htokens : tokenize s = .ok (⟨.string value, lexeme, .start⟩ :: tokens)) :
    NewlinesReplaced s s' := by
  refine ⟨_, htokens, ?_⟩
  have hscans := tokenize_eq_ok.mp htokens
  rw [hs] at hscans
  rw [hs, hs']
  obtain ⟨-, -, -, -, -, -, hrest⟩ := @Scans.cons_inv_at .start [] (quote :: (body ++ [quote])) rest
    ⟨.string value, lexeme, .start⟩ tokens hscans rfl hlexeme
  have hescaped : LexemeEscaped (.string value) (quote :: (body ++ [quote]))
      (quote :: (body' ++ [quote])) := .string hbody
  exact @LiteralsEscaped.cons .start [] _ _ rest rest ⟨.string value, lexeme, .start⟩ tokens rfl
    hlexeme hescaped (.refl hrest)

/-! ## Reading the strings -/

theorem NewlinesEscaped.count_le {cs cs' : List Char} (h : NewlinesEscaped cs cs') :
    cs'.count '\n' ≤ cs.count '\n' := by
  induction h with
  | nil => exact Nat.le_refl _
  | plain hc _ ih => simpa [List.count_cons] using ih
  | escape c _ ih => simpa [List.count_cons] using ih
  | @newline cs cs' _ ih =>
    have hescape : ('\\' :: 'n' :: cs').count '\n' = cs'.count '\n' := by simp
    rw [hescape, List.count_cons_self]
    exact Nat.le_succ_of_le ih

/-- With newlines written as escapes, a text writes the same string. -/
theorem NewlinesEscaped.encodes {quote : Char} {cs body body' : List Char}
    (h : NewlinesEscaped body body') (hbody : Encodes quote cs body) : Encodes quote cs body' := by
  induction h generalizing cs with
  | nil => exact hbody
  | plain hc _ ih =>
    rcases hbody.cons_inv with ⟨hmark, -, cs, rfl, hrest⟩ | ⟨hbackslash, -⟩
    · exact .cons (.plain hmark hc) (ih hrest)
    · exact absurd hbackslash hc
  | escape c _ ih =>
    rcases hbody.cons_inv with ⟨-, hne, -⟩ | ⟨-, d, body, cs, hcons, rfl, hrest⟩
    · exact absurd rfl hne
    · obtain ⟨rfl, rfl⟩ := List.cons.inj hcons
      exact .cons (writesChar_unescape c) (ih hrest)
  | newline _ ih =>
    rcases hbody.cons_inv with ⟨-, -, cs, rfl, hrest⟩ | ⟨hbackslash, -⟩
    · exact .cons .newline (ih hrest)
    · cases hbackslash

/-- **An escaped newline reads as a newline**: a string is read as the same value, up to the same
quotation mark. -/
theorem munchString_escaped {quote : Char} (hquote : isQuote quote = true) {body body' : List Char}
    (h : NewlinesEscaped body body') {value lexeme text : List Char} {m : Munch}
    (hm : munchString quote value lexeme (body ++ quote :: text) = some m) (hrest : m.rest = text)
    (lexeme' text' : List Char) :
    munchString quote value lexeme' (body' ++ quote :: text') =
      some ⟨m.kind, lexeme'.reverse ++ (body' ++ [quote]), text'⟩ := by
  obtain ⟨cs, written, hsplit, hbody, hkind⟩ := encodes_of_munchString hm
  rw [hrest] at hsplit
  obtain rfl : body = written := List.append_cancel_right hsplit
  rw [munchString_of_encodes hquote (h.encodes hbody), hkind]

namespace LexemeEscaped

variable {kind : Token.Kind} {c : Char} {tail lexeme lexeme' text text' : List Char}

/-- The lexeme opens with the same character. -/
theorem exists_tail (h : LexemeEscaped kind (c :: tail) lexeme') :
    ∃ tail', lexeme' = c :: tail' := by
  cases h with
  | same => exact ⟨tail, rfl⟩
  | @string _ _ _ body' _ => exact ⟨body' ++ [c], rfl⟩

/-- It reads as the same kind, before any text that does not go on with it. -/
theorem munch {tail' : List Char} (h : LexemeEscaped kind (c :: tail) (c :: tail'))
    (hm : TwinScript.munch c (tail ++ text) = .ok ⟨kind, c :: tail, text⟩)
    (hlonger : NoLonger text' text) :
    TwinScript.munch c (tail' ++ text') = .ok ⟨kind, c :: tail', text'⟩ := by
  cases h with
  | same =>
    obtain ⟨tail', htail, -, hagain⟩ := munch_split hm
    obtain rfl : tail = tail' := by simpa using htail
    exact hagain text' hlonger
  | @string value _ body body' hbody =>
    obtain ⟨hquote, hstring⟩ := munch_string hm rfl
    refine munch_of_quote hquote ?_
    rw [List.append_assoc, List.singleton_append] at hstring ⊢
    exact munchString_escaped hquote hbody hstring rfl [c] text'

/-- It is not on more lines. -/
theorem count_le (h : LexemeEscaped kind lexeme lexeme') :
    lexeme'.count '\n' ≤ lexeme.count '\n' := by
  cases h with
  | same => exact Nat.le_refl _
  | string hbody =>
    have hle := hbody.count_le
    simp only [List.count_cons, List.count_append]
    omega

/-- What is no string stays as it is. -/
theorem eq_of_ne_string (h : LexemeEscaped kind lexeme lexeme') (hplain : ∀ v, kind ≠ .string v) :
    lexeme' = lexeme := by
  cases h with
  | same => rfl
  | @string value _ _ _ _ => exact absurd rfl (hplain value)

end LexemeEscaped

/-! ## Scanning the texts -/

/-- How many lines the lexeme of a token goes down. -/
def Token.breaks (t : Token) : Nat := t.lexeme.toList.count '\n'

/-- The tokens have the same kinds, and stand behind the same gaps, the first behind what ends on
the lines `n` and `n'`. Strings may have become shorter by some lines. -/
inductive SameGaps : Nat → Nat → List Token → List Token → Prop
  | nil {n n' : Nat} : SameGaps n n' [] []
  | cons {n n' gap : Nat} {t t' : Token} {ts ts' : List Token} (hkind : t.kind = t'.kind)
      (hline : t.pos.line = n + gap) (hline' : t'.pos.line = n' + gap)
      (hfewer : t'.breaks ≤ t.breaks) (hsame : (∀ v, t.kind ≠ .string v) → t'.breaks = t.breaks)
      (hrest : SameGaps (t.pos.line + t.breaks) (t'.pos.line + t'.breaks) ts ts') :
      SameGaps n n' (t :: ts) (t' :: ts')

theorem LiteralsEscaped.noLonger {p : Position} {tokens : List Token} {text text' : List Char}
    (h : LiteralsEscaped p tokens text text') (hscans : Scans p text tokens) :
    NoLonger text' text := by
  cases h with
  | nil => exact .refl _
  | @cons _ gap lexeme lexeme' text text' token tokens hpos hlexeme hescaped hrest =>
    obtain ⟨c, tail, rfl, -⟩ := hscans.cons_inv_at hpos hlexeme
    obtain ⟨tail', rfl⟩ := hescaped.exists_tail
    refine .of_head ?_
    cases gap <;> rfl

/-- A text with newlines written as escapes scans, from any place on, to tokens of the same kinds
behind the same gaps. -/
theorem LiteralsEscaped.scans {p : Position} {tokens : List Token} {text text' : List Char}
    (h : LiteralsEscaped p tokens text text') (hscans : Scans p text tokens) (q : Position) :
    ∃ tokens', Scans q text' tokens' ∧ SameGaps p.line q.line tokens tokens' := by
  induction h generalizing q with
  | nil text =>
    cases hscans with
    | nil hgap => exact ⟨[], .nil hgap, .nil⟩
  | @cons p gap lexeme lexeme' text text' token tokens hpos hlexeme hescaped hrest ih =>
    obtain ⟨c, tail, rfl, hgap, hc, hm, hlater⟩ := hscans.cons_inv_at hpos hlexeme
    obtain ⟨tail', rfl⟩ := hescaped.exists_tail
    -- the lexeme ends where it did, as the text behind it begins with the same character
    have hm' := hescaped.munch hm (hrest.noLonger hlater)
    obtain ⟨tokens', hscans', hgaps⟩ := ih hlater ((q.afterAll gap).afterAll (c :: tail'))
    have hbreaks : token.breaks = (c :: tail).count '\n' := by
      rw [Token.breaks, hlexeme, String.toList_ofList]
    refine ⟨_, .cons hgap hc hm' hscans', .cons rfl ?_ (q.line_afterAll gap) ?_ ?_ ?_⟩
    · rw [hpos, Position.line_afterAll]
    · rw [hbreaks, Token.breaks, String.toList_ofList]
      exact hescaped.count_le
    · intro hplain
      rw [hbreaks, Token.breaks, String.toList_ofList, hescaped.eq_of_ne_string hplain]
    · rw [hbreaks, Token.breaks, String.toList_ofList, ← Position.line_afterAll,
        ← Position.line_afterAll]
      exact hgaps

/-- **Texts that differ in how newlines in strings are written** scan to tokens of the same kinds
behind the same gaps. -/
theorem NewlinesReplaced.tokenize {s s' : String} (h : NewlinesReplaced s s') {tokens : List Token}
    (htokens : TwinScript.tokenize s = .ok tokens) :
    ∃ tokens', TwinScript.tokenize s' = .ok tokens' ∧ SameGaps 1 1 tokens tokens' := by
  obtain ⟨found, hfound, hescaped⟩ := h
  obtain rfl : found = tokens := Except.ok.inj (hfound.symm.trans htokens)
  obtain ⟨tokens', hscans, hgaps⟩ := hescaped.scans (tokenize_eq_ok.mp htokens) .start
  exact ⟨tokens', tokenize_eq_ok.mpr hscans, hgaps⟩

end TwinScript
