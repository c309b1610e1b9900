import TwinScript.Proofs.Token.Scans

/-!
# How strings are written

A string is written between two quotation marks of one kind, character by character: a character as
itself, if it is neither that mark nor a backslash, or behind a backslash, the newline, the tab, the
carriage return and the null character as a letter or a digit there (`WritesChar`, `Encodes`).
Whatever is written so reads as the string it stands for, and nothing else does.

* `munchString_of_encodes`, `encodes_of_munchString`: strings are read back up to the first mark
  that is not behind a backslash.
* `exists_encodes`: every string can be written between every mark.
* `quoted_text_is_literal_iff`: a text between two marks is one string token if and only if it
  writes the value of that token.
-/

namespace TwinScript

/-- The characters by which one character is written between the marks `quote`. -/
inductive WritesChar (quote : Char) : Char → List Char → Prop
  | plain {c : Char} (hquote : c ≠ quote) (hbackslash : c ≠ '\\') : WritesChar quote c [c]
  | newline : WritesChar quote '\n' ['\\', 'n']
  | tab : WritesChar quote '\t' ['\\', 't']
  | carriageReturn : WritesChar quote '\r' ['\\', 'r']
  | null : WritesChar quote '\x00' ['\\', '0']
  | escaped {c : Char} (hc : c ∉ ['n', 't', 'r', '0']) : WritesChar quote c ['\\', c]

/-- The text `body` writes the characters one by one between the marks `quote`. -/
inductive Encodes (quote : Char) : List Char → List Char → Prop
  | nil : Encodes quote [] []
  | cons {c : Char} {cs piece body : List Char} (hpiece : WritesChar quote c piece)
      (hrest : Encodes quote cs body) : Encodes quote (c :: cs) (piece ++ body)

variable {quote : Char}

/-! ## One character -/

/-- Any character may stand behind a backslash. -/
theorem writesChar_unescape (d : Char) : WritesChar quote (unescape d) ['\\', d] := by
  unfold unescape
  split_ifs with hn ht hr h0
  · rw [hn]
    exact .newline
  · rw [ht]
    exact .tab
  · rw [hr]
    exact .carriageReturn
  · rw [h0]
    exact .null
  · exact .escaped (by simp [hn, ht, hr, h0])

/-- A character is written as itself, or as one behind a backslash that stands for it. -/
theorem WritesChar.cases_unescape {c : Char} {piece : List Char} (h : WritesChar quote c piece) :
    (piece = [c] ∧ c ≠ quote ∧ c ≠ '\\') ∨ ∃ d, piece = ['\\', d] ∧ unescape d = c := by
  cases h with
  | plain hquote hbackslash => exact .inl ⟨rfl, hquote, hbackslash⟩
  | newline => exact .inr ⟨'n', rfl, rfl⟩
  | tab => exact .inr ⟨'t', rfl, rfl⟩
  | carriageReturn => exact .inr ⟨'r', rfl, rfl⟩
  | null => exact .inr ⟨'0', rfl, rfl⟩
  | escaped hc =>
    have hself : unescape c = c := by
      simp only [List.mem_cons, List.not_mem_nil, or_false, not_or] at hc
      obtain ⟨hn, ht, hr, h0⟩ := hc
      rw [unescape, if_neg hn, if_neg ht, if_neg hr, if_neg h0]
    exact .inr ⟨c, rfl, hself⟩

/-- The characters that stand for others behind a backslash are themselves without it. -/
theorem exists_writesChar (hquote : isQuote quote = true) (c : Char) :
    ∃ piece, WritesChar quote c piece := by
  by_cases hc : c ∈ ['n', 't', 'r', '0']
  · have hletter : isQuote c = false ∧ c ≠ '\\' := by
      simp only [List.mem_cons, List.not_mem_nil, or_false] at hc
      rcases hc with rfl | rfl | rfl | rfl <;> decide
    have hmark : c ≠ quote := by
      rintro rfl
      rw [hletter.1] at hquote
      cases hquote
    exact ⟨[c], .plain hmark hletter.2⟩
  · exact ⟨['\\', c], .escaped hc⟩

/-! ## Whole strings -/

/-- Every string can be written between every mark. -/
theorem exists_encodes (hquote : isQuote quote = true) (cs : List Char) :
    ∃ body, Encodes quote cs body := by
  induction cs with
  | nil => exact ⟨[], .nil⟩
  | cons c cs ih =>
    obtain ⟨piece, hpiece⟩ := exists_writesChar hquote c
    obtain ⟨body, hbody⟩ := ih
    exact ⟨piece ++ body, .cons hpiece hbody⟩

/-- A text that writes a string begins with a character of it, as itself or behind a backslash. -/
theorem Encodes.cons_inv {c : Char} {cs body : List Char} (h : Encodes quote cs (c :: body)) :
    (c ≠ quote ∧ c ≠ '\\' ∧ ∃ cs', cs = c :: cs' ∧ Encodes quote cs' body) ∨
      c = '\\' ∧ ∃ d body' cs', body = d :: body' ∧ cs = unescape d :: cs' ∧
        Encodes quote cs' body' := by
  generalize hall : c :: body = all at h
  cases h with
  | nil => cases hall
  | @cons c' cs piece rest hpiece hrest =>
    rcases hpiece.cases_unescape with ⟨rfl, hmark, hbackslash⟩ | ⟨d, rfl, rfl⟩
    · obtain ⟨rfl, rfl⟩ := List.cons.inj hall
      exact .inl ⟨hmark, hbackslash, cs, rfl, hrest⟩
    · obtain ⟨rfl, rfl⟩ := List.cons.inj hall
      exact .inr ⟨rfl, d, rest, cs, rfl, rfl, hrest⟩

/-- The mark ends the string. -/
theorem munchString_closed (hquote : isQuote quote = true) (value lexeme rest : List Char) :
    munchString quote value lexeme (quote :: rest) =
      some ⟨.string (String.ofList value.reverse), (quote :: lexeme).reverse, rest⟩ := by
  rw [munchString, if_pos rfl]
  exact fun _ _ h _ => isQuote_ne_backslash hquote h

/-- What is written is read back. -/
theorem munchString_of_encodes (hquote : isQuote quote = true) {cs body : List Char}
    (h : Encodes quote cs body) (value lexeme rest : List Char) :
    munchString quote value lexeme (body ++ quote :: rest) =
      some ⟨.string (String.ofList (value.reverse ++ cs)),
        lexeme.reverse ++ (body ++ [quote]), rest⟩ := by
  induction h generalizing value lexeme with
  | nil =>
    rw [List.nil_append, munchString_closed hquote]
    simp
  | @cons c cs piece body hpiece _ ih =>
    rcases hpiece.cases_unescape with ⟨rfl, hmark, hbackslash⟩ | ⟨d, rfl, rfl⟩
    · rw [List.append_assoc, List.singleton_append, munchString, if_neg hmark, ih]
      · simp
      · exact fun _ _ h _ => hbackslash h
    · simp only [List.cons_append, List.nil_append]
      rw [munchString, ih]
      simp

/-- What is read was written. -/
theorem encodes_of_munchString {value lexeme text : List Char}
    {m : Munch} (h : munchString quote value lexeme text = some m) :
    ∃ cs body, text = body ++ quote :: m.rest ∧ Encodes quote cs body ∧
      m.kind = .string (String.ofList (value.reverse ++ cs)) := by
  fun_induction munchString quote value lexeme text with
  | case1 => cases h
  | case2 value lexeme d text ih =>
    obtain ⟨cs, body, htext, hbody, hkind⟩ := ih h
    refine ⟨unescape d :: cs, ['\\', d] ++ body, ?_, .cons (writesChar_unescape d) hbody, ?_⟩
    · rw [htext]
      rfl
    · rw [hkind, List.reverse_cons, List.append_assoc, List.singleton_append]
  | case3 value lexeme text =>
    cases h
    refine ⟨[], [], rfl, .nil, ?_⟩
    rw [List.append_nil]
  | case4 value lexeme c text hescape hmark ih =>
    obtain ⟨cs, body, htext, hbody, hkind⟩ := ih h
    -- a backslash that ends the text closes no string
    have hbackslash : c ≠ '\\' := by
      rintro rfl
      cases text with
      | nil => cases h
      | cons d text => exact hescape d text rfl rfl
    refine ⟨c :: cs, [c] ++ body, ?_, .cons (.plain hmark hbackslash) hbody, ?_⟩
    · rw [htext]
      rfl
    · rw [hkind, List.reverse_cons, List.append_assoc, List.singleton_append]

/-! ## String literals -/

/-- A quotation mark begins no gap. -/
theorem gapStep_of_isQuote {c : Char} (h : isQuote c = true) : gapStep false c = none := by
  simp only [isQuote, Bool.or_eq_true, beq_iff_eq] at h
  rcases h with rfl | rfl <;> decide

/-- A text that is one lexeme is read off all of it. -/
theorem munch_of_single {c : Char} {cs : List Char} {kind : Token.Kind} {p q : Position}
    (h : Scans p (c :: cs) [⟨kind, String.ofList (c :: cs), q⟩]) :
    munch c cs = .ok ⟨kind, c :: cs, []⟩ := by
  obtain ⟨gap, d, ds, m, htext, -, -, hm, htoken, -⟩ := h.cons_inv
  obtain ⟨rfl, hlexeme, -⟩ := Token.mk.inj htoken
  replace hlexeme : c :: cs = m.lexeme := String.ofList_injective hlexeme
  obtain ⟨tail, hopens, hds, -⟩ := munch_split hm
  -- the lexeme is as long as the text, so there is nothing before it and nothing behind it
  have hlength : gap.length + m.rest.length = 0 := by
    have hall := congrArg List.length htext
    rw [hlexeme, hds, hopens] at hall
    simp only [List.length_append, List.length_cons] at hall
    omega
  obtain rfl : gap = [] := List.length_eq_zero_iff.mp (by omega)
  have hrest : m.rest = [] := List.length_eq_zero_iff.mp (by omega)
  obtain ⟨rfl, rfl⟩ := List.cons.inj htext
  rw [hm, hlexeme, ← hrest]

/-- **Strings are written exactly so.** A text between two quotation marks of one kind scans to one
token, which is a string and has the whole text as its lexeme, if and only if it writes that string
character by character; and every string can be written so. -/
theorem quoted_text_is_literal_iff {quote : Char} (hquote : quote = '"' ∨ quote = '\'')
    (value : String) :
    (∀ body : List Char,
      (∃ p, tokenize (String.ofList (quote :: (body ++ [quote]))) =
        .ok [⟨.string value, String.ofList (quote :: (body ++ [quote])), p⟩]) ↔
      Encodes quote value.toList body) ∧
    ∃ body, Encodes quote value.toList body := by
  have hmark : isQuote quote = true := by
    rcases hquote with rfl | rfl <;> rfl
  refine ⟨fun body => ⟨?_, fun hbody => ?_⟩, exists_encodes hmark _⟩
  · rintro ⟨p, htokens⟩
    have hscans := tokenize_eq_ok.mp htokens
    rw [String.toList_ofList] at hscans
    obtain ⟨-, hm⟩ := munch_string (munch_of_single hscans) rfl
    obtain ⟨cs, body', hsplit, hbody, hkind⟩ := encodes_of_munchString hm
    obtain rfl : body = body' := List.append_cancel_right hsplit
    have hvalue : value = String.ofList cs := Token.Kind.string.inj hkind
    rw [hvalue, String.toList_ofList]
    exact hbody
  · have hread := munchString_of_encodes hmark hbody [] [quote] []
    have hend : Scans ((Position.start.afterAll []).afterAll (quote :: (body ++ [quote]))) [] [] :=
      .nil rfl
    have hscans := @Scans.cons .start [] quote _ _ _ rfl (gapStep_of_isQuote hmark)
      (munch_of_quote hmark hread) hend
    refine ⟨.start, tokenize_eq_ok.mpr ?_⟩
    rw [String.toList_ofList]
    simpa using hscans

/-- An apostrophe between apostrophes. -/
theorem quoted_text_is_literal_iff_apostrophe :
    ('\'' = '"' ∨ '\'' = '\'') ∧
    (∀ body : List Char,
      (∃ p, tokenize (String.ofList ('\'' :: (body ++ ['\'']))) =
        .ok [⟨.string "it's", String.ofList ('\'' :: (body ++ ['\''])), p⟩]) ↔
      Encodes '\'' "it's".toList body) ∧
    ∃ body, Encodes '\'' "it's".toList body :=
  ⟨.inr rfl, quoted_text_is_literal_iff (.inr rfl) "it's"⟩

end TwinScript
