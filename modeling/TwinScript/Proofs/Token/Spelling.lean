import TwinScript.Proofs.Token.Quotation

/-!
# What a text spells

A text spells some kinds of tokens if it scans to tokens of these kinds in front of any text that
does not go on with its last lexeme. Texts are put together from such texts, as long as none of them
runs into the next: a word, a number or an operator needs something behind it that stops it, which a
blank, a comma or a parenthesis does.

* `SpellsOperand.identifier`, `SpellsOperand.keyword`, `SpellsOperand.integer`,
  `SpellsOperand.string`, `Spells.symbol`: the lexemes, as they are shown.
* `Spells.behindSymbol`, `Spells.behindBlank`, `SpellsOperand.append`: how texts are put together.
* `Spells.tokenize`: what becomes of the whole text.
-/

namespace TwinScript

/-- In front of any text that does not go on with its last lexeme, the text scans to tokens of these
kinds, and it is on one line. -/
structure Spells (text : List Char) (kinds : List Token.Kind) : Prop where
  scans : ∀ p rest tokens, NoLonger rest [] → Scans (p.afterAll text) rest tokens →
    ∃ own, Scans p (text ++ rest) (own ++ tokens) ∧ own.map (·.kind) = kinds
  newline_notMem : '\n' ∉ text

/-- The text spells these kinds of tokens, and makes no symbol before it longer. -/
structure SpellsOperand (text : List Char) (kinds : List Token.Kind) : Prop extends
    Spells text kinds where
  opens : ∃ c tail, text = c :: tail ∧ c ≠ '='

/-! ## Lexemes -/

/-- A lexeme that is read in front of any such text. -/
theorem Spells.of_munch {c : Char} {tail : List Char} {kind : Token.Kind}
    (hc : gapStep false c = none)
    (hm : ∀ rest, NoLonger rest [] → munch c (tail ++ rest) = .ok ⟨kind, c :: tail, rest⟩)
    (hline : '\n' ∉ c :: tail) : Spells (c :: tail) [kind] := by
  refine ⟨fun p rest tokens hrest htokens => ?_, hline⟩
  have hscans : Scans p ([] ++ c :: (tail ++ rest)) _ := .cons rfl hc (hm rest hrest) htokens
  exact ⟨[_], hscans, rfl⟩

/-- A lexeme that begins like a string, a number or a word. -/
theorem SpellsOperand.of_munch {c : Char} {tail : List Char} {kind : Token.Kind}
    (hc : c = '"' ∨ isWordPart c = true)
    (hm : ∀ rest, NoLonger rest [] → munch c (tail ++ rest) = .ok ⟨kind, c :: tail, rest⟩)
    (hline : '\n' ∉ c :: tail) : SpellsOperand (c :: tail) [kind] := by
  have hnot : ∀ d, isWordPart d = false → d ≠ '"' → c ≠ d := by
    rintro d hd hquote rfl
    rcases hc with hc | hc
    · exact hquote hc
    · rw [hd] at hc
      cases hc
  have hsign := hnot '#' (by decide) (by decide)
  have hspace := hnot ' ' (by decide) (by decide)
  have hbreak := hnot '\n' (by decide) (by decide)
  have htab := hnot '\t' (by decide) (by decide)
  have hreturn := hnot '\r' (by decide) (by decide)
  have hgap : gapStep false c = none := by
    simp [gapStep, isBlank, hsign, hspace, hbreak, htab, hreturn]
  exact ⟨.of_munch hgap hm hline, c, tail, rfl, hnot '=' (by decide) (by decide)⟩

/-- Behind a word, no part of a word follows. -/
theorem NoLonger.stops {rest : List Char} (h : NoLonger rest []) {goes : Char → Bool}
    (hgoes : goes ∈ lexemeGoers) (c : Char) (hc : rest.head? = some c) : goes c = false := by
  by_contra hon
  have hnone := h goes hgoes c hc (by simpa using hon)
  cases hnone

theorem newline_notMem_of_parts {run : List Char} (h : ∀ c ∈ run, isWordPart c = true) :
    '\n' ∉ run := by
  intro hline
  exact absurd (h _ hline) (by decide)

/-! ### Words -/

/-- The word is a name: it begins as a word does, goes on as a word does, and is not reserved. -/
structure IsName (name : String) : Prop where
  opens : ∃ c tail, name.toList = c :: tail ∧ isWordStart c = true ∧ ∀ d ∈ tail, isWordPart d = true
  not_reserved : Keyword.ofSpelling? name = none

theorem isWordPart_of_isWordStart {c : Char} (h : isWordStart c = true) : isWordPart c = true := by
  simp only [isWordStart, isWordPart, Bool.or_eq_true] at h ⊢
  rcases h with h | h
  · exact .inl (.inl h)
  · exact .inr h

theorem SpellsOperand.identifier {name : String} (h : IsName name) :
    SpellsOperand name.toList [.identifier name] := by
  obtain ⟨c, tail, hname, hc, htail⟩ := h.opens
  rw [hname]
  have hparts : ∀ d ∈ c :: tail, isWordPart d = true :=
    List.forall_mem_cons.mpr ⟨isWordPart_of_isWordStart hc, htail⟩
  refine .of_munch (.inr (isWordPart_of_isWordStart hc))
    (fun rest hrest => ?_) (newline_notMem_of_parts hparts)
  obtain ⟨htake, hdrop⟩ := takeWhile_dropWhile_of_stop htail
    (hrest.stops (by simp [lexemeGoers]))
  have hword : String.ofList (c :: tail) = name := by
    rw [← hname, String.ofList_toList]
  rw [munch_of_word hc, htake, hdrop, hword, wordKind, h.not_reserved]

/-- A reserved word in any of its spellings. -/
theorem SpellsOperand.keyword {k : Keyword} {word : String} (h : k.isSpelledBy word = true) :
    SpellsOperand word.toList [.keyword k] := by
  obtain ⟨-, hne, hletters⟩ := Keyword.spelling_letters h
  obtain ⟨c, tail, hword⟩ := List.exists_cons_of_ne_nil hne
  rw [hword] at hletters ⊢
  have hparts : ∀ d ∈ c :: tail, isWordPart d = true := by
    intro d hd
    have hletter := List.all_eq_true.mp hletters d hd
    simp only [isSpellingLetter, Bool.and_eq_true] at hletter
    exact hletter.1.1.1.1.1.2
  have hspelled : k.isSpelledBy (String.ofList (c :: tail)) = true := by
    rw [← hword, String.ofList_toList]
    exact h
  exact .of_munch (.inr (hparts c List.mem_cons_self))
    (fun rest hrest => munch_spelling hspelled (hrest.stops (by simp [lexemeGoers])))
    (newline_notMem_of_parts hparts)

/-! ### Numbers -/

/-- The decimal digits of a number write that number. -/
theorem decimalValue_toDigits (n : Nat) : decimalValue (Nat.toDigits 10 n) = n :=
  Nat.ofDigitChars_toDigits (by decide) (by decide)

theorem SpellsOperand.integer {n : Int64} (h : 0 ≤ n.toInt) :
    SpellsOperand (toString n.toInt).toList [.integer n] := by
  obtain ⟨m, hm⟩ := Int.eq_ofNat_of_zero_le h
  have hn : Int64.ofNat m = n := by
    rw [← Int64.ofInt_toInt n, hm]
    rfl
  have hbound : m < integerBound := by
    have hlt := n.toInt_lt
    rw [hm] at hlt
    unfold integerBound
    omega
  have htext : (toString n.toInt).toList = Nat.toDigits 10 m := by
    rw [hm]
    exact Nat.toList_repr
  have hdigits : ∀ c ∈ Nat.toDigits 10 m, c.isDigit = true := fun c hc =>
    Nat.isDigit_of_mem_toDigits (by decide) (by decide) hc
  have hvalue := decimalValue_toDigits m
  obtain ⟨c, tail, hcons⟩ := List.exists_cons_of_ne_nil (@Nat.toDigits_ne_nil m 10)
  rw [htext, hcons]
  rw [hcons] at hdigits hvalue
  obtain ⟨hc, htail⟩ := List.forall_mem_cons.mp hdigits
  have hparts : ∀ d ∈ c :: tail, isWordPart d = true := fun d hd =>
    (word_of_isDigit (hdigits d hd)).2.2
  refine .of_munch (.inr (hparts c List.mem_cons_self))
    (fun rest hrest => ?_) (newline_notMem_of_parts hparts)
  obtain ⟨htake, hdrop⟩ := takeWhile_dropWhile_of_stop htail
    (hrest.stops (by simp [lexemeGoers]))
  rw [munch_of_digit hc, htake, hdrop, munchInteger, hvalue, if_pos hbound, hn]

/-! ### Strings -/

/-- The character is shown as itself, or as a backslash and one other character. -/
def HasShortForm (c : Char) : Prop :=
  quoteChar c = [c] ∨ ∃ d ∈ ['"', '\\', 'n', 'r', 't', '0'], quoteChar c = ['\\', d]

instance : DecidablePred HasShortForm := fun _ => @instDecidableOr _ _ _ (List.decidableBEx _ _)

/-- A character is shown as itself only if it may stand inside a string, and otherwise behind a
backslash that the scanner takes back. -/
theorem HasShortForm.reads {c : Char} (h : HasShortForm c) :
    (quoteChar c = [c] ∧ c ≠ '"' ∧ c ≠ '\\' ∧ c ≠ '\n') ∨
      ∃ d, quoteChar c = ['\\', d] ∧ unescape d = c ∧ d ≠ '\n' := by
  rcases h with hself | ⟨d, hd, hescape⟩
  · refine .inl ⟨hself, ?_, ?_, ?_⟩ <;>
    · rintro rfl
      exact absurd hself (by decide)
  · refine .inr ⟨d, hescape, ?_, ?_⟩
    · unfold quoteChar codePointEscape at hescape
      split_ifs at hescape <;> cases hescape <;> subst_vars <;> decide
    · rintro rfl
      exact absurd hd (by decide)

/-- What is shown between the quotation marks writes the string. -/
theorem encodes_shown {cs : List Char} (h : ∀ c ∈ cs, HasShortForm c) :
    Encodes '"' cs (cs.flatMap quoteChar) := by
  induction cs with
  | nil => exact .nil
  | cons c cs ih =>
    obtain ⟨hc, hcs⟩ := List.forall_mem_cons.mp h
    rw [List.flatMap_cons]
    refine .cons ?_ (ih hcs)
    rcases hc.reads with ⟨hself, hquote, hbackslash, -⟩ | ⟨d, hescape, hback, -⟩
    · rw [hself]
      exact .plain hquote hbackslash
    · rw [hescape, ← hback]
      exact writesChar_unescape d

theorem SpellsOperand.string {s : String} (h : ∀ c ∈ s.toList, HasShortForm c) :
    SpellsOperand (quoted s).toList [.string s] := by
  unfold quoted
  rw [String.toList_ofList]
  refine .of_munch (.inl rfl) (fun rest _ => ?_) ?_
  · have hread := munchString_of_encodes (by decide) (encodes_shown h) [] ['"'] rest
    rw [List.append_assoc, List.singleton_append, munch_of_quote (by decide) hread]
    simp
  · have hnone : ∀ c ∈ s.toList, '\n' ∉ quoteChar c := by
      intro c hc
      rcases (h c hc).reads with ⟨hself, -, -, hline⟩ | ⟨d, hescape, -, hline⟩
      · simpa [hself] using hline.symm
      · simpa [hescape] using hline.symm
    simpa using hnone

/-! ### Symbols -/

theorem Symbol.gapStep_head {s : Symbol} {c : Char} {tail : List Char} (h : s.chars = c :: tail) :
    gapStep false c = none := by
  cases s <;> cases h <;> decide

theorem Symbol.munch_of_stop {s : Symbol} {c : Char} {tail rest : List Char}
    (h : s.chars = c :: tail) (hstop : rest.head? ≠ some '=') :
    munch c (tail ++ rest) = .ok ⟨.symbol s, c :: tail, rest⟩ := by
  have hopening := s.opening?_chars hstop
  rw [h, List.cons_append] at hopening
  unfold munch
  rw [hopening]
  dsimp only
  rw [h, ← List.cons_append, List.drop_left]

theorem Symbol.exists_chars (s : Symbol) : ∃ c tail, s.chars = c :: tail :=
  List.exists_cons_of_ne_nil (List.length_pos_iff.mp s.length_chars_pos)

theorem Spells.symbol (s : Symbol) : Spells s.chars [.symbol s] := by
  obtain ⟨c, tail, hchars⟩ := s.exists_chars
  have hline := s.newline_notMem_chars
  rw [hchars] at hline ⊢
  refine .of_munch (Symbol.gapStep_head hchars) (fun rest hrest => ?_) hline
  refine Symbol.munch_of_stop hchars fun hequal => ?_
  have hgoes := @NoLonger.stops rest hrest (· == '=') (by simp [lexemeGoers]) '=' hequal
  exact absurd hgoes (by decide)

/-! ## Texts put together -/

section

variable {c : Char} {text more : List Char} {kinds moreKinds : List Token.Kind}

/-- Blanks before a text spell nothing. -/
theorem Spells.behindBlank (h : Spells text kinds) : SpellsOperand (' ' :: text) kinds := by
  refine ⟨⟨fun p rest tokens hrest htokens => ?_, ?_⟩, ' ', text, rfl, by decide⟩
  · obtain ⟨own, hscans, hkinds⟩ := h.scans (p.afterAll [' ']) rest tokens hrest htokens
    exact ⟨own, @Scans.behind_gap p [' '] _ _ rfl hscans, hkinds⟩
  · simpa using h.newline_notMem

/-- A symbol before a text that does not make it longer. -/
theorem SpellsOperand.behindSymbol (h : SpellsOperand text kinds) (s : Symbol) :
    Spells (s.chars ++ text) (.symbol s :: kinds) := by
  refine ⟨fun p rest tokens hrest htokens => ?_, ?_⟩
  · rw [Position.afterAll_append] at htokens
    obtain ⟨own, hscans, hkinds⟩ := h.scans _ rest tokens hrest htokens
    obtain ⟨c, tail, hchars⟩ := s.exists_chars
    have hstop : (text ++ rest).head? ≠ some '=' := by
      obtain ⟨d, more, rfl, hd⟩ := h.opens
      simpa using hd
    have hmunch := Symbol.munch_of_stop hchars hstop
    rw [hchars] at hscans
    have hall : Scans p ([] ++ c :: (tail ++ (text ++ rest))) _ :=
      .cons rfl (Symbol.gapStep_head hchars) hmunch hscans
    refine ⟨⟨.symbol s, String.ofList (c :: tail), p⟩ :: own, ?_, by rw [List.map_cons, hkinds]⟩
    rw [hchars, List.append_assoc]
    exact hall
  · rw [List.mem_append]
    exact not_or.mpr ⟨s.newline_notMem_chars, h.newline_notMem⟩

/-- Nor is a symbol made longer by another that does not begin with an equals sign. -/
theorem SpellsOperand.behindPrefix (h : SpellsOperand text kinds) {s : Symbol}
    (hs : s.chars.head? ≠ some '=') : SpellsOperand (s.chars ++ text) (.symbol s :: kinds) := by
  refine ⟨h.behindSymbol s, ?_⟩
  obtain ⟨c, tail, hchars⟩ := s.exists_chars
  rw [hchars] at hs ⊢
  exact ⟨c, tail ++ text, rfl, by simpa using hs⟩

/-- A text before another, the first character of which goes on with nothing. -/
theorem SpellsOperand.append (h : SpellsOperand text kinds) (hmore : Spells (c :: more) moreKinds)
    (hc : ∀ goes ∈ lexemeGoers, goes c = false) :
    SpellsOperand (text ++ c :: more) (kinds ++ moreKinds) := by
  refine ⟨⟨fun p rest tokens hrest htokens => ?_, ?_⟩, ?_⟩
  · rw [Position.afterAll_append] at htokens
    obtain ⟨own, hscans, hkinds⟩ := hmore.scans _ rest tokens hrest htokens
    obtain ⟨first, hfirst, hfirstKinds⟩ := h.scans p _ _ (noLonger_of_stops hc _ _) hscans
    refine ⟨first ++ own, ?_, by rw [List.map_append, hfirstKinds, hkinds]⟩
    rw [List.append_assoc, List.append_assoc]
    exact hfirst
  · rw [List.mem_append]
    exact not_or.mpr ⟨h.newline_notMem, hmore.newline_notMem⟩
  · obtain ⟨d, tail, rfl, hd⟩ := h.opens
    exact ⟨d, tail ++ c :: more, rfl, hd⟩

/-- A text in parentheses. -/
theorem SpellsOperand.enclosed (h : SpellsOperand text kinds) :
    SpellsOperand ('(' :: (text ++ [')']))
      (.symbol .leftParen :: (kinds ++ [.symbol .rightParen])) :=
  (h.append (.symbol .rightParen) (by decide)).behindPrefix (s := .leftParen) (by decide)

/-- A text that spells some kinds of tokens scans to tokens of these kinds, on one line. -/
theorem Spells.tokenize {text : String} (h : Spells text.toList kinds) :
    ∃ tokens, TwinScript.tokenize text = .ok tokens ∧ tokens.map (·.kind) = kinds ∧
      ∀ t ∈ tokens, t.pos.line = 1 := by
  obtain ⟨tokens, hscans, hkinds⟩ := h.scans .start [] [] (.refl _) (.nil rfl)
  rw [List.append_nil, List.append_nil] at hscans
  refine ⟨tokens, tokenize_eq_ok.mpr hscans, hkinds, fun t ht => ?_⟩
  have hbounds := hscans.line_bounds t ht
  rw [Position.line_afterAll, List.count_eq_zero.mpr h.newline_notMem] at hbounds
  have hstart : Position.start.line = 1 := rfl
  omega

end

end TwinScript
