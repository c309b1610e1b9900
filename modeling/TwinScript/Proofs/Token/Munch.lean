import TwinScript.Token.Scan
import Mathlib.Data.List.TakeWhile
import Mathlib.Tactic.IntervalCases

/-!
# One lexeme

How much of a text the next lexeme takes. A lexeme ends where its last character cannot be followed,
so of the text behind it only the first character matters, and of that only whether it is a digit, a
part of a word, or the second half of a comparison (`lexemeGoers`).

* `munch_split`: a lexeme opens its text, and it is read again before any text that does not go on
  with more than the one behind it did (`NoLonger`).
* `munch_spelling`: each spelling of a reserved word is read as that word, before a text that does
  not go on with it.
-/

namespace TwinScript

/-- What the characters that can go on with a lexeme have in common, for the lexemes that others can
go on with: numbers, words, and the symbols that an equals sign makes longer. -/
def lexemeGoers : List (Char → Bool) := [Char.isDigit, isWordPart, (· == '=')]

/-- The text `rest'` does not go on with any lexeme that `rest` does not go on with. -/
def NoLonger (rest' rest : List Char) : Prop :=
  ∀ goes ∈ lexemeGoers, ∀ c, rest'.head? = some c → goes c = true → rest.head?.any goes = true

theorem NoLonger.refl (rest : List Char) : NoLonger rest rest := by
  intro goes _ c hc hgoes
  rw [hc]
  exact hgoes

theorem NoLonger.of_head {rest' rest : List Char} (h : rest'.head? = rest.head?) :
    NoLonger rest' rest := by
  intro goes _ c hc hgoes
  rw [← h, hc]
  exact hgoes

/-- A text that begins with a character that goes on with no lexeme goes on with none. -/
theorem noLonger_of_stops {c : Char} (h : ∀ goes ∈ lexemeGoers, goes c = false)
    (cs rest : List Char) : NoLonger (c :: cs) rest := by
  intro goes hgoes d hd hon
  cases hd
  rw [h goes hgoes] at hon
  cases hon

/-- Behind a run of characters of some sort, the text does not begin with another. -/
theorem takeWhile_dropWhile_of_stop {goes : Char → Bool} {run rest : List Char}
    (hrun : ∀ c ∈ run, goes c = true) (hstop : ∀ c, rest.head? = some c → goes c = false) :
    (run ++ rest).takeWhile goes = run ∧ (run ++ rest).dropWhile goes = rest := by
  have hnone : rest.takeWhile goes = [] ∧ rest.dropWhile goes = rest := by
    cases rest with
    | nil => exact ⟨rfl, rfl⟩
    | cons c cs =>
      have hc := hstop c rfl
      simp [hc]
  rw [List.takeWhile_append_of_pos hrun, List.dropWhile_append_of_pos hrun, hnone.1, hnone.2,
    List.append_nil]
  exact ⟨rfl, rfl⟩

/-- A run that was taken whole is taken whole again before a text that does not go on with more. -/
theorem takeWhile_dropWhile_of_noLonger {goes : Char → Bool} (hgoes : goes ∈ lexemeGoers)
    (cs : List Char) {rest' : List Char} (h : NoLonger rest' (cs.dropWhile goes)) :
    (cs.takeWhile goes ++ rest').takeWhile goes = cs.takeWhile goes ∧
      (cs.takeWhile goes ++ rest').dropWhile goes = rest' := by
  refine takeWhile_dropWhile_of_stop (fun c hc => List.mem_takeWhile_imp hc) fun c hc => ?_
  by_contra hon
  have hnext := h goes hgoes c hc (by simpa using hon)
  cases hrest : cs.dropWhile goes with
  | nil => simp [hrest] at hnext
  | cons d ds =>
    have hd := List.head?_dropWhile_not goes cs
    simp only [hrest, List.head?_cons] at hd
    simp [hrest, hd] at hnext

/-! ## Strings -/

/-- A string takes the characters up to its closing quotation mark, whatever follows. -/
theorem munchString_split {quote : Char} (hbackslash : quote ≠ '\\') {value lexeme cs : List Char}
    {m : Munch} (h : munchString quote value lexeme cs = some m) :
    ∃ taken, cs = taken ++ m.rest ∧ m.lexeme = lexeme.reverse ++ taken ∧
      ∀ rest', munchString quote value lexeme (taken ++ rest') = some { m with rest := rest' } := by
  fun_induction munchString quote value lexeme cs with
  | case1 => cases h
  | case2 value lexeme c cs ih =>
    obtain ⟨taken, hcs, hlexeme, hagain⟩ := ih h
    refine ⟨'\\' :: c :: taken, by rw [hcs]; rfl, by simp [hlexeme], fun rest' => ?_⟩
    rw [List.cons_append, List.cons_append, munchString]
    exact hagain rest'
  | case3 value lexeme cs =>
    cases h
    refine ⟨[quote], rfl, by simp, fun rest' => ?_⟩
    rw [List.singleton_append, munchString, if_pos rfl]
    exact fun _ _ hquote _ => hbackslash hquote
  | case4 value lexeme c cs hescape hquote ih =>
    obtain ⟨taken, hcs, hlexeme, hagain⟩ := ih h
    -- a backslash that ends the text closes no string
    have hplain : c ≠ '\\' := by
      rintro rfl
      cases cs with
      | nil => cases h
      | cons d ds => exact hescape d ds rfl rfl
    refine ⟨c :: taken, by rw [hcs]; rfl, by simp [hlexeme], fun rest' => ?_⟩
    rw [List.cons_append, munchString, if_neg hquote]
    · exact hagain rest'
    · exact fun _ _ hc _ => hplain hc

/-! ## Symbols -/

namespace Symbol

/-- No symbol begins like a string, a number or a word. -/
theorem head_chars (s : Symbol) (c : Char) (hc : s.chars.head? = some c) :
    isQuote c = false ∧ c.isDigit = false ∧ isWordStart c = false := by
  cases s <;>
  · cases hc
    decide

theorem newline_notMem_chars (s : Symbol) : '\n' ∉ s.chars := by
  cases s <;> decide

theorem opening?_eq_none {c : Char} (h : isQuote c = true ∨ c.isDigit = true ∨ isWordStart c = true)
    (cs : List Char) : opening? (c :: cs) = none := by
  unfold opening?
  rw [List.find?_eq_none]
  intro s _ hs
  obtain ⟨rest, hrest⟩ := List.isPrefixOf_iff_prefix.mp hs
  have hhead : s.chars.head? = some c := by
    have hpos := s.length_chars_pos
    cases hchars : s.chars with
    | nil => simp [hchars] at hpos
    | cons d ds =>
      rw [hchars] at hrest
      cases hrest
      rfl
  obtain ⟨hquote, hdigit, hword⟩ := s.head_chars c hhead
  rw [hquote, hdigit, hword] at h
  simp at h

/-- A symbol is read before any text that does not begin with an equals sign. -/
theorem opening?_chars (s : Symbol) {rest : List Char} (hstop : rest.head? ≠ some '=') :
    opening? (s.chars ++ rest) = some s := by
  cases rest with
  | nil => cases s <;> rfl
  | cons d ds =>
    have hd : ('=' == d) = false := by
      rw [beq_eq_false_iff_ne]
      rintro rfl
      exact hstop rfl
    cases s <;> simp [opening?, all, chars, List.find?, List.isPrefixOf, hd]

/-- A symbol is read again before a text that does not make it longer. -/
theorem opening?_again {s : Symbol} {rest rest' : List Char} (h : opening? (s.chars ++ rest) = some s)
    (hlonger : NoLonger rest' rest) : opening? (s.chars ++ rest') = some s := by
  by_cases hhead : rest'.head? = some '='
  · have hnext := hlonger (· == '=') (by simp [lexemeGoers]) '=' hhead rfl
    obtain ⟨ds, rfl⟩ : ∃ ds, rest = '=' :: ds := by
      cases rest with
      | nil => simp at hnext
      | cons d ds =>
        obtain rfl : d = '=' := by simpa using hnext
        exact ⟨ds, rfl⟩
    obtain ⟨ds', rfl⟩ : ∃ ds', rest' = '=' :: ds' := by
      cases rest' with
      | nil => cases hhead
      | cons d ds' =>
        cases hhead
        exact ⟨ds', rfl⟩
    cases s <;> first | rfl | cases h
  · exact opening?_chars s hhead

end Symbol

/-! ## Lexemes -/

theorem isQuote_ne_backslash {c : Char} (h : isQuote c = true) : c ≠ '\\' := by
  rintro rfl
  cases h

/-- A digit opens neither a string nor a word, but it goes on with words. -/
theorem word_of_isDigit {c : Char} (h : c.isDigit = true) :
    isQuote c = false ∧ isWordStart c = false ∧ isWordPart c = true := by
  have hrange : 48 ≤ c.toNat ∧ c.toNat ≤ 57 := by
    simp only [Char.isDigit, Bool.and_eq_true, decide_eq_true_eq] at h
    exact h
  rw [← Char.ofNat_toNat c]
  generalize c.toNat = n at hrange
  obtain ⟨hlow, hhigh⟩ := hrange
  interval_cases n <;> decide

/-- A quotation mark opens no word. -/
theorem not_word_of_isQuote {c : Char} (h : isQuote c = true) : isWordStart c = false := by
  simp only [isQuote, Bool.or_eq_true, beq_iff_eq] at h
  rcases h with rfl | rfl <;> decide

theorem munch_of_quote {c : Char} (h : isQuote c = true) {cs : List Char} {m : Munch}
    (hm : munchString c [] [c] cs = some m) : munch c cs = .ok m := by
  unfold munch
  rw [Symbol.opening?_eq_none (.inl h)]
  dsimp only
  rw [if_pos h, hm]

theorem munch_of_digit {c : Char} (h : c.isDigit = true) (cs : List Char) :
    munch c cs = munchInteger (c :: cs.takeWhile Char.isDigit) (cs.dropWhile Char.isDigit) := by
  obtain ⟨hquote, -⟩ := word_of_isDigit h
  unfold munch
  rw [Symbol.opening?_eq_none (.inr (.inl h))]
  dsimp only
  rw [if_neg (by simp [hquote]), if_pos h]

theorem munch_of_word {c : Char} (h : isWordStart c = true) (cs : List Char) :
    munch c cs =
      .ok ⟨wordKind (String.ofList (c :: cs.takeWhile isWordPart)), c :: cs.takeWhile isWordPart,
        cs.dropWhile isWordPart⟩ := by
  have hquote : ¬ isQuote c = true := by
    intro hq
    rw [not_word_of_isQuote hq] at h
    cases h
  have hdigit : ¬ c.isDigit = true := by
    intro hd
    rw [(word_of_isDigit hd).2.1] at h
    cases h
  unfold munch
  rw [Symbol.opening?_eq_none (.inr (.inr h))]
  dsimp only
  rw [if_neg hquote, if_neg hdigit, if_pos h]

/-- A lexeme is a symbol, a string, a number or a word. -/
theorem munch_cases {c : Char} {cs : List Char} {m : Munch} (h : munch c cs = .ok m) :
    (∃ s, Symbol.opening? (c :: cs) = some s ∧
      m = ⟨.symbol s, s.chars, (c :: cs).drop s.chars.length⟩) ∨
    (isQuote c = true ∧ munchString c [] [c] cs = some m) ∨
    (c.isDigit = true ∧
      munchInteger (c :: cs.takeWhile Char.isDigit) (cs.dropWhile Char.isDigit) = .ok m) ∨
    (isWordStart c = true ∧
      m = ⟨wordKind (String.ofList (c :: cs.takeWhile isWordPart)),
        c :: cs.takeWhile isWordPart, cs.dropWhile isWordPart⟩) := by
  unfold munch at h
  split at h
  · next s hs =>
    cases h
    exact .inl ⟨s, hs, rfl⟩
  · split at h
    · next hquote =>
      split at h
      · next m' hm' =>
        cases h
        exact .inr (.inl ⟨hquote, hm'⟩)
      · cases h
    · split at h
      · next hdigit => exact .inr (.inr (.inl ⟨hdigit, h⟩))
      · split at h
        · next hword =>
          cases h
          exact .inr (.inr (.inr ⟨hword, rfl⟩))
        · cases h

/-- A number is read from all its digits at once. -/
theorem munchInteger_eq_ok {digits rest : List Char} {m : Munch}
    (h : munchInteger digits rest = .ok m) :
    m.lexeme = digits ∧ m.rest = rest ∧ (∃ n, m.kind = .integer n) ∧
      ∀ rest', munchInteger digits rest' = .ok { m with rest := rest' } := by
  unfold munchInteger at h ⊢
  dsimp only at h ⊢
  split at h
  · next hbound =>
    cases h
    refine ⟨rfl, rfl, ⟨_, rfl⟩, fun rest' => ?_⟩
    rw [if_pos hbound]
  · cases h

/-- A symbol that opens a text is its beginning. -/
theorem Symbol.opening?_split {c : Char} {cs : List Char} {s : Symbol}
    (h : opening? (c :: cs) = some s) :
    ∃ tail, s.chars = c :: tail ∧ cs = tail ++ (c :: cs).drop s.chars.length := by
  obtain ⟨rest, hrest⟩ : s.chars <+: c :: cs := by
    have hfound := List.find?_some h
    exact List.isPrefixOf_iff_prefix.mp hfound
  have hpos := s.length_chars_pos
  cases hchars : s.chars with
  | nil => simp [hchars] at hpos
  | cons d ds =>
    rw [hchars, List.cons_append] at hrest
    obtain ⟨rfl, rfl⟩ := List.cons.inj hrest
    refine ⟨ds, rfl, ?_⟩
    rw [← List.cons_append, List.drop_left]

/-- **Maximal munch is local.** A lexeme opens its text, and the same lexeme is read before any text
that does not go on with it. -/
theorem munch_split {c : Char} {cs : List Char} {m : Munch} (h : munch c cs = .ok m) :
    ∃ tail, m.lexeme = c :: tail ∧ cs = tail ++ m.rest ∧
      ∀ rest', NoLonger rest' m.rest → munch c (tail ++ rest') = .ok { m with rest := rest' } := by
  rcases munch_cases h with ⟨s, hs, rfl⟩ | ⟨hquote, hm⟩ | ⟨hdigit, hm⟩ | ⟨hword, rfl⟩
  · obtain ⟨tail, hchars, hcs⟩ := Symbol.opening?_split hs
    refine ⟨tail, hchars, hcs, fun rest' hlonger => ?_⟩
    have hagain : Symbol.opening? (c :: (tail ++ rest')) = some s := by
      rw [← List.cons_append, ← hchars]
      refine Symbol.opening?_again ?_ hlonger
      rw [hchars, List.cons_append]
      rw [hchars] at hcs
      rw [← hcs]
      exact hs
    unfold munch
    rw [hagain]
    dsimp only
    rw [← List.cons_append, ← hchars, List.drop_left]
  · obtain ⟨taken, hcs, hlexeme, hagain⟩ := munchString_split (isQuote_ne_backslash hquote) hm
    exact ⟨taken, hlexeme, hcs, fun rest' _ => munch_of_quote hquote (hagain rest')⟩
  · obtain ⟨hlexeme, hrest, -, hagain⟩ := munchInteger_eq_ok hm
    rw [hrest]
    refine ⟨_, hlexeme, List.takeWhile_append_dropWhile.symm, fun rest' hlonger => ?_⟩
    have hrun := takeWhile_dropWhile_of_noLonger (by simp [lexemeGoers]) cs hlonger
    rw [munch_of_digit hdigit, hrun.1, hrun.2]
    exact hagain rest'
  · refine ⟨_, rfl, List.takeWhile_append_dropWhile.symm, fun rest' hlonger => ?_⟩
    have hrun := takeWhile_dropWhile_of_noLonger (by simp [lexemeGoers]) cs hlonger
    rw [munch_of_word hword, hrun.1, hrun.2]

/-! ## Reserved words -/

/-- A letter of a spelling: a part of a word that is no gap, no digit and no sign. -/
def isSpellingLetter (c : Char) : Bool :=
  isWordStart c && isWordPart c && !isQuote c && !c.isDigit && c != '=' && c != '\n' &&
    (gapStep false c).isNone

theorem Keyword.spelling_letters {k : Keyword} {word : String} (h : k.isSpelledBy word = true) :
    ofSpelling? word = some k ∧ word.toList ≠ [] ∧ word.toList.all isSpellingLetter = true := by
  have hspelling : word = k.spelling .english ∨ word = k.spelling .nepali ∨
      word = "dekhauln" ∧ k = .printlnWord := by
    simpa [isSpelledBy, aliases, or_assoc] using h
  rcases hspelling with rfl | rfl | ⟨rfl, rfl⟩
  · cases k <;> decide +kernel
  · cases k <;> decide +kernel
  · decide +kernel

theorem Keyword.isSpelledBy_of_ofSpelling? {k : Keyword} {word : String}
    (h : ofSpelling? word = some k) : k.isSpelledBy word = true := by
  have hfound := List.find?_some h
  exact hfound

/-- Each spelling of a reserved word is read as that word, before a text that does not go on with
it. -/
theorem munch_spelling {k : Keyword} {c : Char} {tail : List Char}
    (h : k.isSpelledBy (String.ofList (c :: tail)) = true) {rest : List Char}
    (hstop : ∀ d, rest.head? = some d → isWordPart d = false) :
    munch c (tail ++ rest) = .ok ⟨.keyword k, c :: tail, rest⟩ := by
  obtain ⟨hword, -, hletters⟩ := Keyword.spelling_letters h
  rw [String.toList_ofList, List.all_cons, Bool.and_eq_true] at hletters
  obtain ⟨hc, htail⟩ := hletters
  have hrun : ∀ d ∈ tail, isWordPart d = true := by
    intro d hd
    have hletter := List.all_eq_true.mp htail d hd
    simp only [isSpellingLetter, Bool.and_eq_true] at hletter
    exact hletter.1.1.1.1.1.2
  simp only [isSpellingLetter, Bool.and_eq_true] at hc
  have hstart : isWordStart c = true := hc.1.1.1.1.1.1
  obtain ⟨htake, hdrop⟩ := takeWhile_dropWhile_of_stop hrun hstop
  rw [munch_of_word hstart, htake, hdrop]
  unfold wordKind
  rw [hword]

/-- A string reads as a string. -/
theorem munchString_kind {quote : Char} {value lexeme cs : List Char} {m : Munch}
    (h : munchString quote value lexeme cs = some m) : ∃ v, m.kind = .string v := by
  fun_induction munchString quote value lexeme cs with
  | case1 => cases h
  | case2 _ _ _ _ ih => exact ih h
  | case3 =>
    cases h
    exact ⟨_, rfl⟩
  | case4 _ _ _ _ _ _ ih => exact ih h

/-- A string opens with a quotation mark. -/
theorem munch_string {c : Char} {cs : List Char} {m : Munch} {v : String} (h : munch c cs = .ok m)
    (hv : m.kind = .string v) : isQuote c = true ∧ munchString c [] [c] cs = some m := by
  rcases munch_cases h with ⟨s, -, rfl⟩ | hstring | ⟨-, hm⟩ | ⟨-, rfl⟩
  · cases hv
  · exact hstring
  · obtain ⟨-, -, ⟨n, hn⟩, -⟩ := munchInteger_eq_ok hm
    rw [hn] at hv
    cases hv
  · dsimp only at hv
    unfold wordKind at hv
    split at hv <;> cases hv

/-- A reserved word is read where one of its spellings stands, and nothing goes on with it. -/
theorem munch_keyword {c : Char} {cs : List Char} {m : Munch} {k : Keyword}
    (h : munch c cs = .ok m) (hk : m.kind = .keyword k) :
    k.isSpelledBy (String.ofList m.lexeme) = true ∧
      ∀ d, m.rest.head? = some d → isWordPart d = false := by
  rcases munch_cases h with ⟨s, -, rfl⟩ | ⟨-, hm⟩ | ⟨-, hm⟩ | ⟨-, rfl⟩
  · cases hk
  · obtain ⟨v, hv⟩ := munchString_kind hm
    rw [hv] at hk
    cases hk
  · obtain ⟨-, -, ⟨n, hn⟩, -⟩ := munchInteger_eq_ok hm
    rw [hn] at hk
    cases hk
  · dsimp only at hk ⊢
    unfold wordKind at hk
    split at hk
    · next k' hword =>
      cases hk
      refine ⟨Keyword.isSpelledBy_of_ofSpelling? hword, fun d hd => ?_⟩
      have hnot := List.head?_dropWhile_not isWordPart cs
      rw [hd] at hnot
      exact hnot
    · cases hk

end TwinScript
