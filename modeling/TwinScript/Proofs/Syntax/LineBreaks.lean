import TwinScript.Proofs.Syntax.Programs
import TwinScript.Proofs.Syntax.ReadBack.Expressions

/-!
# Layout is line breaks between neighbours

All that the parser is told of where tokens stand is whether each is on the line of the token before
it. `SameLayout` says of two lists of tokens that they agree in this, and in the kinds of the tokens:
how the tokens are written, in which columns they stand and on which lines may differ.

* `marks_of_sameLayout`: the marks that the grammar reads are then alike.
* `layout_decides_parse`: and so are the programs, or the errors at one and the same token.
-/

namespace TwinScript

/-! ## Tokens at the same index -/

/-- The tokens stand at the same index of the two lists. -/
def Token.Paired (tokens tokens' : List Token) (t t' : Token) : Prop :=
  ∃ i : Nat, tokens[i]? = some t ∧ tokens'[i]? = some t'

/-- Where two lists are related token by token, each token is related to the one at its index. -/
theorem Token.forall₂_paired {R : Token → Token → Prop} {tokens tokens' : List Token}
    (h : List.Forall₂ R tokens tokens') :
    List.Forall₂ (fun t t' => R t t' ∧ Paired tokens tokens' t t') tokens tokens' := by
  rw [List.forall₂_iff_get] at h ⊢
  obtain ⟨hlength, hget⟩ := h
  refine ⟨hlength, fun i hi hi' => ⟨hget i hi hi', i, ?_, ?_⟩⟩
  · rw [List.get_eq_getElem, List.getElem?_eq_getElem hi]
  · rw [List.get_eq_getElem, List.getElem?_eq_getElem hi']

/-! ## Layout -/

/-- Of each token but the first, whether it is on the line of the token before it. -/
def lineJoins (tokens : List Token) : List Bool :=
  List.zipWith (fun before t => decide (t.pos.line = before.pos.line)) tokens tokens.tail

/-- Tokens of the same kinds in the same order, with line breaks between the same neighbours. -/
structure SameLayout (tokens tokens' : List Token) : Prop where
  kinds_eq : tokens.map (·.kind) = tokens'.map (·.kind)
  lineJoins_eq : lineJoins tokens = lineJoins tokens'

theorem SameLayout.refl (tokens : List Token) : SameLayout tokens tokens := ⟨rfl, rfl⟩

theorem SameLayout.symm {tokens tokens' : List Token} (h : SameLayout tokens tokens') :
    SameLayout tokens' tokens := ⟨h.kinds_eq.symm, h.lineJoins_eq.symm⟩

theorem SameLayout.trans {tokens tokens' tokens'' : List Token} (h : SameLayout tokens tokens')
    (h' : SameLayout tokens' tokens'') : SameLayout tokens tokens'' :=
  ⟨h.kinds_eq.trans h'.kinds_eq, h.lineJoins_eq.trans h'.lineJoins_eq⟩

/-- Behind tokens that are related, tokens of the same layout have marks that are alike, if the
tokens at each index are related. -/
theorem marksAfter_of_sameLayout {tok : Token → Token → Prop} {before before' : Token}
    {tokens tokens' : List Token} (h : SameLayout (before :: tokens) (before' :: tokens'))
    (htok : List.Forall₂ tok tokens tokens') :
    List.Forall₂ (Mark.Like tok) (marksAfter before tokens) (marksAfter before' tokens') := by
  induction htok generalizing before before' with
  | nil => exact .nil
  | @cons t t' rest rest' ht _ ih =>
    obtain ⟨hkinds, hjoins⟩ := h
    obtain ⟨hjoin, hmore⟩ := List.cons.inj hjoins
    obtain ⟨-, hkinds⟩ := List.cons.inj hkinds
    exact .cons ⟨ht, hjoin⟩ (ih ⟨hkinds, hmore⟩)

/-- Tokens of the same layout have marks that are alike, if the tokens at each index are related. -/
theorem marks_of_sameLayout {tok : Token → Token → Prop} {tokens tokens' : List Token}
    (h : SameLayout tokens tokens') (htok : List.Forall₂ tok tokens tokens') :
    List.Forall₂ (Mark.Like tok) (marks tokens) (marks tokens') := by
  cases htok with
  | nil => exact .nil
  | cons ht hrest => exact .cons ⟨ht, rfl⟩ (marksAfter_of_sameLayout h hrest)

/-- Of tokens at the same index the kind is asked, and nothing of where they stand. -/
theorem Token.paired_tokensAt (tokens tokens' : List Token) :
    TokensAt (fun t t' => t.kind = t'.kind ∧ Paired tokens tokens' t t') fun _ _ => True :=
  fun _ _ ht => ⟨ht.1, trivial⟩

/-- Tokens of the same layout are marked alike, with tokens of one kind at each index. -/
theorem SameLayout.marks_paired {tokens tokens' : List Token} (h : SameLayout tokens tokens') :
    List.Forall₂ (Mark.Like fun t t' => t.kind = t'.kind ∧ Token.Paired tokens tokens' t t')
      (marks tokens) (marks tokens') := by
  have hkinds : List.Forall₂ (fun t t' : Token => t.kind = t'.kind) tokens tokens' := by
    have hall := h.kinds_eq
    rw [← List.forall₂_eq_eq_eq, List.forall₂_map_left_iff, List.forall₂_map_right_iff] at hall
    exact hall
  exact marks_of_sameLayout h (Token.forall₂_paired hkinds)

/-- **Layout decides what is parsed.** Two lists of tokens of the same kinds, with line breaks
between the same neighbours, are the same program up to positions; or neither is a program, for the
same reason, and that shows at the same token in both or at the end of both. -/
theorem layout_decides_parse {tokens tokens' : List Token} (h : SameLayout tokens tokens') :
    AnswersAlike (ParseError.Like (Token.Paired tokens tokens')) Stmt.AllSame (parse tokens)
      (parse tokens') := by
  have hparse := parse_alike (Token.paired_tokensAt tokens tokens') h.marks_paired
  exact hparse.mono (fun _ _ he => he.mono fun _ _ ht => ht.2) fun _ _ hprogram => hprogram

/-- A name and, on another line, a number in parentheses are two statements, wherever the lines
are. -/
theorem layout_decides_parse_of_name_and_parentheses :
    let tokens : List Token := [⟨.identifier "f", "f", ⟨1, 1⟩⟩, ⟨.symbol .leftParen, "(", ⟨2, 1⟩⟩,
      ⟨.integer 7, "7", ⟨2, 2⟩⟩, ⟨.symbol .rightParen, ")", ⟨2, 3⟩⟩]
    let tokens' : List Token := [⟨.identifier "f", "f", ⟨9, 4⟩⟩,
      ⟨.symbol .leftParen, "(", ⟨3, 8⟩⟩, ⟨.integer 7, "007", ⟨3, 8⟩⟩,
      ⟨.symbol .rightParen, ")", ⟨3, 1⟩⟩]
    SameLayout tokens tokens' ∧
      (parse tokens).map List.length = .ok 2 ∧
      AnswersAlike (ParseError.Like (Token.Paired tokens tokens')) Stmt.AllSame (parse tokens)
        (parse tokens') := by
  intro tokens tokens'
  have hlayout : SameLayout tokens tokens' := ⟨rfl, rfl⟩
  exact ⟨hlayout, rfl, layout_decides_parse hlayout⟩

end TwinScript
