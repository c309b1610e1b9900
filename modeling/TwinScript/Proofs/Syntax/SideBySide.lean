import TwinScript.Proofs.Syntax.Descent
import TwinScript.Proofs.Syntax.Taking

/-!
# The descent beside the grammar

`Descent.ReadsAs` compares a part of the descent with a parser of the grammar: they have the same
results and the same errors, the cursor comes to where the tokens begin that are left, and what
surrounds it is as before. That the part ends at all, and does not look back where no token is, is
in it.

* `Descent.ReadsAs.bind`: parts in a row.
* `Descent.Accepts.bind`: what follows a token that may come next.
* `Descent.operatorsOn_reads`: a repetition, which ends because it takes a token a round.
-/

namespace TwinScript

variable {α β : Type} {tokens : List Token} {c : Cursor} {least : Nat}

/-! ## Tokens by their number -/

/-- The token is on the line of the token before the number `i`. -/
def joinedAt (tokens : List Token) (i : Nat) (token : Token) : Bool :=
  decide (i ≠ 0) && (tokens[i - 1]?).any fun before => token.pos.line = before.pos.line

/-- Behind a token, the mark of each token says whether it is on the line of the one before. -/
theorem getElem?_marksAfter (previous : Token) (tokens : List Token) (i : Nat) :
    (marksAfter previous tokens)[i]? =
      (tokens[i]?).map fun token => ⟨token, joinedAt (previous :: tokens) (i + 1) token⟩ := by
  induction tokens generalizing previous i with
  | nil => rfl
  | cons first rest ih =>
    cases i with
    | zero => rfl
    | succ i => exact ih first i

/-- The mark at a number is the token there, with its join. -/
theorem getElem?_marks (tokens : List Token) (i : Nat) :
    (marks tokens)[i]? = (tokens[i]?).map fun token => ⟨token, joinedAt tokens i token⟩ := by
  cases tokens with
  | nil => rfl
  | cons first rest =>
    cases i with
    | zero => rfl
    | succ i => exact getElem?_marksAfter first rest i

/-- Where there is no token, no marks are left. -/
theorem drop_marks_of_none {i : Nat} (h : tokens[i]? = none) : (marks tokens).drop i = [] := by
  rw [List.drop_eq_nil_iff, length_marks]
  exact List.getElem?_eq_none_iff.mp h

/-- Where there is a token, the marks that are left begin with its own. -/
theorem drop_marks_of_some {i : Nat} {token : Token} (h : tokens[i]? = some token) :
    (marks tokens).drop i = ⟨token, joinedAt tokens i token⟩ :: (marks tokens).drop (i + 1) := by
  have hmark : (marks tokens)[i]? = some ⟨token, joinedAt tokens i token⟩ := by
    rw [getElem?_marks, h]
    rfl
  obtain ⟨hi, hget⟩ := List.getElem?_eq_some_iff.mp hmark
  rw [List.drop_eq_getElem_cons hi, hget]

/-- A token that exists is among the tokens. -/
theorem lt_length_of_getElem? {i : Nat} {token : Token} (h : tokens[i]? = some token) :
    i < tokens.length := (List.getElem?_eq_some_iff.mp h).1

/-- Where no tokens are left, none comes next. -/
theorem getElem?_eq_none_of_sub_le {i : Nat} (h : tokens.length - i ≤ 0) : tokens[i]? = none := by
  rw [List.getElem?_eq_none_iff]
  omega

/-- What is wanted of the next token shows that there is one. -/
theorem lt_length_of_any {i : Nat} {wanted : Token → Bool}
    (h : (tokens[i]?).any wanted = true) : i < tokens.length := by
  obtain ⟨token, htoken, -⟩ := (Option.any_eq_true ..).mp h
  exact lt_length_of_getElem? htoken

/-- The token at the cursor is the one that the grammar reads next. -/
theorem upcoming?_drop_marks (tokens : List Token) (i : Nat) :
    upcoming? ((marks tokens).drop i) = tokens[i]? := by
  cases h : tokens[i]? with
  | none => rw [drop_marks_of_none h]; rfl
  | some token => rw [drop_marks_of_some h]; rfl

/-- So a symbol comes next for both or for neither. -/
theorem nextIs_drop_marks (s : Symbol) (tokens : List Token) (i : Nat) :
    nextIs s ((marks tokens).drop i) = (tokens[i]?).any (·.kind = .symbol s) := by
  unfold nextIs
  rw [upcoming?_drop_marks]

/-! ## Tokens that are wanted -/

section

variable {symbols : List Symbol} (m : Mark)

/-- Whether the token is one of the symbols, as the descent asks it of kinds. -/
theorem Mark.isOneOf_eq_contains :
    m.isOneOf symbols = (symbols.map Token.Kind.symbol).contains m.token.kind := by
  unfold Mark.isOneOf
  split
  · next s hs => simp [hs]
  · next hs =>
    symm
    rw [Bool.eq_false_iff, ne_eq, List.contains_iff_mem, List.mem_map]
    rintro ⟨s, -, hkind⟩
    exact hs s hkind.symm

/-- Operators may be alike in whether they must be on the line of what precedes them. -/
theorem Mark.continuesWith_of_alike {bound : Bool} (h : ∀ s ∈ symbols, s.staysOnLine = bound) :
    m.continuesWith symbols =
      ((symbols.map Token.Kind.symbol).contains m.token.kind && (m.joined || !bound)) := by
  rw [← Mark.isOneOf_eq_contains]
  unfold Mark.continuesWith Mark.isOneOf
  split
  · next s _ =>
    cases hs : symbols.contains s with
    | false => rfl
    | true => simp [h s (List.contains_iff_mem.mp hs)]
  · rfl

/-- Operators that may stand on a new line are taken for their kind. -/
theorem Mark.continuesWith_of_free (h : ∀ s ∈ symbols, s.staysOnLine = false) :
    m.continuesWith symbols = (symbols.map Token.Kind.symbol).contains m.token.kind := by
  simpa using m.continuesWith_of_alike h

/-- All others must be on the line of what precedes them. -/
theorem Mark.continuesWith_of_bound (h : ∀ s ∈ symbols, s.staysOnLine = true) :
    m.continuesWith symbols =
      ((symbols.map Token.Kind.symbol).contains m.token.kind && m.joined) := by
  simpa using m.continuesWith_of_alike h

end

namespace Descent

/-! ## Parts side by side -/

/-- The part ends with the result of the parser, at the index, `least` or more, where the tokens
begin that the parser leaves, or with the error of the parser. What surrounds the cursor is in the
end what it was. -/
def ReadsAs (p : Descent α) (tokens : List Token) (c : Cursor) (least : Nat) (q : Parser α) :
    Prop :=
  (∃ a i, p tokens c = .done a (c.moved i) ∧
    q ((marks tokens).drop c.index) = .ok (a, (marks tokens).drop i) ∧
    least ≤ i ∧ i ≤ tokens.length) ∨
  ∃ e i, p tokens c = .failed e (c.moved i) ∧ q ((marks tokens).drop c.index) = .error e

namespace ReadsAs

variable {p : Descent α} {q : Parser α} {p' : α → Descent β} {q' : α → Parser β}

/-- Who takes more tokens takes at least as many. -/
theorem mono {more : Nat} (h : p.ReadsAs tokens c more q) (hless : least ≤ more) :
    p.ReadsAs tokens c least q := by
  rcases h with ⟨a, i, hp, hq, hmore, hi⟩ | hfailed
  · exact .inl ⟨a, i, hp, hq, Nat.le_trans hless hmore, hi⟩
  · exact .inr hfailed

/-- A result without tokens leaves all of them. -/
theorem pure (a : α) (hleast : least ≤ c.index) (hc : c.index ≤ tokens.length) :
    (Pure.pure a : Descent α).ReadsAs tokens c least (Pure.pure a) :=
  .inl ⟨a, c.index, rfl, rfl, hleast, hc⟩

/-- Both blame the token that comes next. -/
theorem failNext (fault : ParseFault) :
    (Descent.failNext fault : Descent α).ReadsAs tokens c least (TwinScript.failNext fault) := by
  refine .inr ⟨⟨fault, tokens[c.index]?⟩, c.index, rfl, ?_⟩
  unfold TwinScript.failNext
  rw [upcoming?_drop_marks]

/-- The second part goes on where the first has stopped. -/
theorem bind {mid : Nat} (hp : p.ReadsAs tokens c mid q)
    (hnext : ∀ a i, mid ≤ i → i ≤ tokens.length →
      (p' a).ReadsAs tokens (c.moved i) least (q' a)) :
    (p >>= p').ReadsAs tokens c least (q >>= q') := by
  unfold ReadsAs
  rw [Parser.bind_apply]
  rcases hp with ⟨a, i, hp, hq, hmid, hi⟩ | ⟨e, i, hp, hq⟩
  · rw [bind_of_done hp, hq]
    exact hnext a i hmid hi
  · rw [bind_of_failed hp, hq]
    exact .inr ⟨e, i, rfl, rfl⟩

/-- The first tokens are read in a way of its own, and then the part goes on as another one. -/
theorem onward {p₂ : Descent α} {q₂ : Parser α} {j : Nat}
    (h : p₂.ReadsAs tokens (c.moved j) least q₂) (hp : p tokens c = p₂ tokens (c.moved j))
    (hq : q ((marks tokens).drop c.index) = q₂ ((marks tokens).drop j)) :
    p.ReadsAs tokens c least q := by
  unfold ReadsAs
  rw [hp, hq]
  exact h

/-- The surroundings of a part are left as they were before it. -/
theorem within {enter leave : Cursor → Cursor} (hindex : (enter c).index = c.index)
    (hleave : ∀ i, leave ((enter c).moved i) = c.moved i) (h : p.ReadsAs tokens (enter c) least q) :
    (Descent.within enter leave p).ReadsAs tokens c least q := by
  unfold ReadsAs Descent.within
  rw [← hindex]
  rcases h with ⟨a, i, hp, hq, hless, hi⟩ | ⟨e, i, hp, hq⟩
  · exact .inl ⟨a, i, by rw [hp]; exact congrArg _ (hleave i), hq, hless, hi⟩
  · exact .inr ⟨e, i, by rw [hp]; exact congrArg _ (hleave i), hq⟩

end ReadsAs

/-! ## Tokens that may come next -/

/-- Behind a token that was taken, looking back finds it. -/
theorem previous_bind {token : Token} (h : tokens[c.index]? = some token) (f : Token → Descent α) :
    (previous >>= f) tokens (c.moved (c.index + 1)) = f token tokens (c.moved (c.index + 1)) :=
  bind_of_done (previous_of_some (Nat.succ_ne_zero _) h) f

/-- One of the kinds is taken if it comes next, and otherwise nothing. -/
theorem acceptAny_apply (kinds : List Token.Kind) :
    acceptAny kinds tokens c =
      if (tokens[c.index]?).any fun token => kinds.contains token.kind then
        .done true (c.moved (c.index + 1))
      else .done false c := by
  unfold acceptAny
  rw [peek?_bind]
  cases tokens[c.index]? with
  | none => rfl
  | some token =>
    dsimp only
    rw [ite_apply]
    rfl

/-- It looks back only where a token comes next, and so at one that exists. -/
theorem checkOnLine_apply (kind : Token.Kind) :
    checkOnLine kind tokens c =
      .done ((tokens[c.index]?).any fun token =>
        decide (token.kind = kind) && joinedAt tokens c.index token) c := by
  unfold checkOnLine
  rw [cursor_bind, ite_apply]
  by_cases hzero : c.index = 0
  · rw [if_pos hzero]
    simp [joinedAt, hzero]
    rfl
  · rw [if_neg hzero, peek?_bind]
    cases h : tokens[c.index]? with
    | none => rfl
    | some token =>
      dsimp only
      rw [ite_apply]
      by_cases hkind : token.kind = kind
      · rw [if_pos hkind]
        have hbefore : c.index - 1 < tokens.length :=
          Nat.lt_of_le_of_lt (Nat.sub_le _ _) (lt_length_of_getElem? h)
        rw [bind_of_done (previous_of_some hzero (List.getElem?_eq_getElem hbefore))]
        simp [joinedAt, hzero, hkind, hbefore]
        rfl
      · rw [if_neg hkind]
        simp [hkind]
        rfl

/-- One of the kinds is taken if it comes next on the same line. -/
theorem acceptOnLine_apply (kinds : List Token.Kind) :
    acceptOnLine kinds tokens c =
      if (tokens[c.index]?).any fun token =>
          kinds.contains token.kind && joinedAt tokens c.index token then
        .done true (c.moved (c.index + 1))
      else .done false c := by
  induction kinds with
  | nil =>
    simp
    rfl
  | cons kind kinds ih =>
    unfold acceptOnLine
    rw [bind_of_done (checkOnLine_apply kind), ite_apply, ih]
    cases tokens[c.index]? with
    | none => rfl
    | some token =>
      rw [Option.any_some, Option.any_some, Option.any_some, List.contains_cons]
      by_cases hkind : token.kind = kind
      · cases joinedAt tokens c.index token with
        | false => simp [hkind]
        | true =>
          simp [hkind]
          rfl
      · simp [hkind]

/-- The part takes the token that comes next if it is wanted, and says whether it did. -/
def Accepts (p : Descent Bool) (tokens : List Token) (wanted : Mark → Bool) : Prop :=
  ∀ c, p tokens c =
    if (tokens[c.index]?).any fun token => wanted ⟨token, joinedAt tokens c.index token⟩ then
      .done true (c.moved (c.index + 1))
    else .done false c

/-- What follows if a wanted token comes next, and what if none does. -/
theorem Accepts.bind {p : Descent Bool} {wanted : Mark → Bool} (hp : p.Accepts tokens wanted)
    {yes no : Descent α} {next : Option Token → Parser α}
    (hyes : ∀ token, tokens[c.index]? = some token →
      wanted ⟨token, joinedAt tokens c.index token⟩ = true →
      yes.ReadsAs tokens (c.moved (c.index + 1)) least (next (some token)))
    (hno : no.ReadsAs tokens c least (next none)) :
    (p >>= fun found => if found = true then yes else no).ReadsAs tokens c least
      (acceptIf wanted >>= next) := by
  have hread := hp c
  cases h : tokens[c.index]? with
  | none =>
    rw [h] at hread
    refine .onward hno (bind_of_done hread _) ?_
    rw [Parser.bind_apply, drop_marks_of_none h]
    rfl
  | some token =>
    rw [h, Option.any_some] at hread
    cases hwanted : wanted ⟨token, joinedAt tokens c.index token⟩ with
    | true =>
      rw [hwanted, if_pos rfl] at hread
      refine .onward (hyes token h hwanted) (bind_of_done hread _) ?_
      rw [Parser.bind_apply, drop_marks_of_some h]
      simp only [acceptIf, hwanted, if_true]
    | false =>
      rw [hwanted, if_neg Bool.false_ne_true] at hread
      refine .onward hno (bind_of_done hread _) ?_
      rw [Parser.bind_apply, drop_marks_of_some h]
      simp only [acceptIf, hwanted, Bool.false_eq_true, if_false]

/-- So the descent takes what the grammar wants for its kind alone. -/
theorem acceptAny_accepts {kinds : List Token.Kind} {wanted : Mark → Bool}
    (h : ∀ m : Mark, wanted m = kinds.contains m.token.kind) :
    (acceptAny kinds).Accepts tokens wanted := by
  intro c
  simp only [acceptAny_apply, h]

/-- And what the grammar wants on the line it takes only there. -/
theorem acceptOnLine_accepts {kinds : List Token.Kind} {wanted : Mark → Bool}
    (h : ∀ m : Mark, wanted m = (kinds.contains m.token.kind && m.joined)) :
    (acceptOnLine kinds).Accepts tokens wanted := by
  intro c
  simp only [acceptOnLine_apply, h]

/-- A single kind is taken if it comes next. -/
theorem accept_apply (kind : Token.Kind) :
    accept kind tokens c =
      if (tokens[c.index]?).any (·.kind = kind) then .done true (c.moved (c.index + 1))
      else .done false c := by
  unfold accept
  rw [acceptAny_apply]
  congr 2
  cases tokens[c.index]? with
  | none => rfl
  | some token => simp

/-- What follows if a token of a kind comes next, and what if it does not. -/
theorem accept_then {token : Token} (h : tokens[c.index]? = some token) (kind : Token.Kind)
    (yes no : Descent α) :
    (accept kind >>= fun found => if found = true then yes else no) tokens c =
      if token.kind = kind then yes tokens (c.moved (c.index + 1)) else no tokens c := by
  have hread : accept kind tokens c = _ := accept_apply _
  rw [h, Option.any_some] at hread
  by_cases hkind : token.kind = kind
  · rw [if_pos (decide_eq_true hkind)] at hread
    rw [bind_of_done hread, if_pos hkind]
    rfl
  · rw [if_neg (by simpa using hkind)] at hread
    rw [bind_of_done hread, if_neg hkind]
    rfl

/-- What follows if a symbol comes next, and what if it does not. -/
theorem accept_bind {s : Symbol} {yes no : Descent α} {yes' no' : Parser α}
    (hyes : c.index < tokens.length → yes.ReadsAs tokens (c.moved (c.index + 1)) least yes')
    (hno : no.ReadsAs tokens c least no') :
    (accept (.symbol s) >>= fun found => if found = true then yes else no).ReadsAs tokens c least
      (TwinScript.accept s >>= fun found => if found = true then yes' else no') := by
  by_cases hnext : (tokens[c.index]?).any (·.kind = .symbol s) = true
  · have hread : accept (.symbol s) tokens c = .done true (c.moved (c.index + 1)) := by
      rw [accept_apply, if_pos hnext]
    refine .onward (hyes (lt_length_of_any hnext)) (bind_of_done hread _) ?_
    rw [Parser.bind_apply, TwinScript.accept, nextIs_drop_marks, if_pos hnext, List.tail_drop]
    rfl
  · have hread : accept (.symbol s) tokens c = .done false c := by
      rw [accept_apply, if_neg hnext]
    refine .onward hno (bind_of_done hread _) ?_
    rw [Parser.bind_apply, TwinScript.accept, nextIs_drop_marks, if_neg hnext]
    rfl

/-- What is expected and comes next is taken. -/
theorem expect_of_next {kind : Token.Kind} (hnext : (tokens[c.index]?).any (·.kind = kind) = true)
    (what : String) : expect kind what tokens c = .done () (c.moved (c.index + 1)) := by
  obtain ⟨token, h, -⟩ := (Option.any_eq_true ..).mp hnext
  unfold expect
  rw [bind_of_done (check_apply kind), if_pos hnext]
  exact previous_bind h _

/-- What is expected is taken, or is the error of the grammar at the same token. -/
theorem expect_reads (s : Symbol) (what : String) :
    (expect (.symbol s) what).ReadsAs tokens c (c.index + 1) (TwinScript.expect s what) := by
  by_cases hnext : (tokens[c.index]?).any (·.kind = .symbol s) = true
  · refine .inl ⟨(), c.index + 1, expect_of_next hnext what, ?_, Nat.le_refl _,
      lt_length_of_any hnext⟩
    rw [TwinScript.expect, nextIs_drop_marks, if_pos hnext, List.tail_drop]
  · refine .onward (j := c.index) (.failNext (.expected what)) ?_ ?_
    · unfold expect
      rw [bind_of_done (check_apply _), if_neg hnext]
      rfl
    · rw [TwinScript.expect, nextIs_drop_marks, if_neg hnext]

/-- A name is taken, or is the error of the grammar. -/
theorem identifier_reads :
    identifier.ReadsAs tokens c (c.index + 1) TwinScript.identifier := by
  have hfails : (failNext (.expected "identifier") : Descent String).ReadsAs tokens
      (c.moved c.index) (c.index + 1) (TwinScript.failNext (.expected "identifier")) := .failNext _
  cases h : tokens[c.index]? with
  | none =>
    refine .onward hfails ?_ ?_
    · unfold identifier
      rw [peek?_bind, h]
      rfl
    · rw [drop_marks_of_none h]
      rfl
  | some token =>
    obtain ⟨kind, lexeme, pos⟩ := token
    cases kind with
    | identifier name =>
      refine .inl ⟨name, c.index + 1, ?_, ?_, Nat.le_refl _, lt_length_of_getElem? h⟩
      · unfold identifier
        rw [peek?_bind, h]
        rfl
      · rw [drop_marks_of_some h]
        rfl
    | _ =>
      refine .onward hfails ?_ ?_
      · unfold identifier
        rw [peek?_bind, h]
        rfl
      · rw [drop_marks_of_some h]
        rfl

/-! ## Repetition -/

/-- At every cursor of this nesting the part reads as the parser does in its context, and takes a
token at least. -/
def Progresses (p : Descent α) (tokens : List Token) (n : Nat) (q : Context → Parser α) : Prop :=
  ∀ c : Cursor, c.nesting = n → c.index ≤ tokens.length →
    p.ReadsAs tokens c (c.index + 1) (q c.context)

section

variable {n rounds : Nat} (hn : c.nesting = n) (hc : c.index ≤ tokens.length)
include hn hc

/-- A repetition takes a token a round. So it ends before the rounds of the descent do, and the
grammar, which has a round for each token, stops where no token is left. -/
theorem operatorsOn_reads {goesOn : Descent Bool} {operators : List Symbol}
    (hgoesOn : goesOn.Accepts tokens (Mark.continuesWith operators)) {operand : Descent Expr}
    {q : Parser Expr} (hoperand : operand.Progresses tokens n fun _ => q) {more : Nat}
    (hmore : tokens.length - c.index ≤ more) (hrounds : tokens.length - c.index < rounds)
    (left : Expr) :
    (operatorsOn goesOn operand rounds left).ReadsAs tokens c c.index
      (TwinScript.operatorsOn operators q more left) := by
  induction rounds generalizing c left more with
  | zero => exact absurd hrounds (Nat.not_lt_zero _)
  | succ rounds ih =>
    unfold operatorsOn
    have hends : (Pure.pure left : Descent Expr).ReadsAs tokens c c.index (Pure.pure left) :=
      .pure left (Nat.le_refl _) hc
    cases more with
    | zero =>
      have hread := hgoesOn c
      rw [getElem?_eq_none_of_sub_le hmore] at hread
      exact .onward hends (bind_of_done hread _) rfl
    | succ more =>
      unfold TwinScript.operatorsOn
      refine hgoesOn.bind (fun op hop _ => ?_) hends
      have hinside := lt_length_of_getElem? hop
      refine .onward (j := c.index + 1) ?_ (previous_bind hop _) rfl
      apply (hoperand (c.moved (c.index + 1)) hn hinside).bind
      intro right i hi hlength
      rw [Cursor.index_moved] at hi
      have hless : tokens.length - i ≤ more ∧ tokens.length - i < rounds ∧ c.index ≤ i := by omega
      exact (ih (c := c.moved i) hn hlength hless.1 hless.2.1 _).mono hless.2.2

/-- Items behind commas. -/
theorem afterCommas_reads {item : Descent α} {q : Parser α}
    (hitem : item.Progresses tokens n fun _ => q) {more : Nat}
    (hmore : tokens.length - c.index ≤ more) (hrounds : tokens.length - c.index < rounds)
    (items : List α) :
    (afterCommas item rounds items).ReadsAs tokens c c.index
      (TwinScript.afterCommas q more items) := by
  induction rounds generalizing c items more with
  | zero => exact absurd hrounds (Nat.not_lt_zero _)
  | succ rounds ih =>
    unfold afterCommas
    have hends : (Pure.pure items.reverse : Descent (List α)).ReadsAs tokens c c.index
        (Pure.pure items.reverse) := .pure _ (Nat.le_refl _) hc
    cases more with
    | zero =>
      have hread : accept (.symbol .comma) tokens c = _ := accept_apply _
      rw [getElem?_eq_none_of_sub_le hmore] at hread
      exact .onward hends (bind_of_done hread _) rfl
    | succ more =>
      unfold TwinScript.afterCommas
      refine accept_bind (fun hinside => ?_) hends
      apply (hitem (c.moved (c.index + 1)) hn hinside).bind
      intro next i hi hlength
      rw [Cursor.index_moved] at hi
      have hless : tokens.length - i ≤ more ∧ tokens.length - i < rounds ∧ c.index ≤ i := by omega
      exact (ih (c := c.moved i) hn hlength hless.1 hless.2.1 _).mono hless.2.2

/-- The items of a list that does not end at once. -/
theorem items_reads (hrounds : tokens.length < rounds) {item : Descent α} {q : Parser α}
    (hitem : item.Progresses tokens n fun _ => q)
    (hnext : ¬ (tokens[c.index]?).any (·.kind = .symbol .rightParen) = true) :
    (items rounds item).ReadsAs tokens c (c.index + 1)
      (q >>= fun first => TwinScript.afterCommas q tokens.length [first]) := by
  have hread : items rounds item tokens c =
      (item >>= fun first => afterCommas item rounds [first]) tokens c := by
    unfold items
    rw [bind_of_done (check_apply _), if_neg hnext]
  refine .onward (j := c.index) ?_ hread rfl
  apply (hitem c hn hc).bind
  intro first i hi hlength
  have hfew : tokens.length - i ≤ tokens.length := Nat.sub_le _ _
  have hless : tokens.length - i < rounds := Nat.lt_of_le_of_lt hfew hrounds
  exact (afterCommas_reads (c := c.moved i) hn hlength hitem hfew hless _).mono hi

/-- A list behind its opening parenthesis, with the closing one. -/
theorem commaSeparated_reads (hrounds : tokens.length < rounds) {item : Descent α} {q : Parser α}
    (hitem : item.Progresses tokens n fun _ => q) (what : String) :
    (commaSeparated rounds item what).ReadsAs tokens c (c.index + 1)
      (TwinScript.commaSeparated tokens.length q what) := by
  unfold commaSeparated TwinScript.commaSeparated
  by_cases hnext : (tokens[c.index]?).any (·.kind = .symbol .rightParen) = true
  · -- the parenthesis that ends the list is seen first and taken afterwards
    have hnone : items rounds item tokens c = .done [] c := by
      unfold items
      rw [bind_of_done (check_apply _), if_pos hnext]
      rfl
    refine .inl ⟨[], c.index + 1, ?_, ?_, Nat.le_refl _, lt_length_of_any hnext⟩
    · rw [bind_of_done hnone, bind_of_done (expect_of_next hnext what)]
      rfl
    · rw [Parser.bind_apply, TwinScript.accept, nextIs_drop_marks, if_pos hnext, List.tail_drop]
      rfl
  · have hall : (items rounds item >>= fun items => expect (.symbol .rightParen) what >>= fun _ =>
        (pure items : Descent (List α))).ReadsAs tokens c (c.index + 1)
        ((q >>= fun first => TwinScript.afterCommas q tokens.length [first]) >>= fun items =>
          TwinScript.expect .rightParen what >>= fun _ => pure items) := by
      apply (items_reads hn hc hrounds hitem hnext).bind
      intro items i hi hlength
      apply ((expect_reads .rightParen what).mono (Nat.le_succ_of_le hi)).bind
      exact fun _ j hj hlast => .pure items hj hlast
    refine .onward (j := c.index) hall rfl ?_
    rw [Parser.bind_apply, TwinScript.accept, nextIs_drop_marks, if_neg hnext, bind_assoc]
    rfl

end

/-- One level of operators over the tighter ones. -/
theorem level_reads (operators : List Symbol) {n rounds : Nat} (hrounds : tokens.length < rounds)
    {goesOn : Descent Bool} (hgoesOn : goesOn.Accepts tokens (Mark.continuesWith operators))
    {operand : Descent Expr} {q : Parser Expr} {tighter : List (List Symbol)}
    (hoperand : operand.Progresses tokens n fun _ => binary tokens.length q tighter) :
    (level rounds goesOn operand).Progresses tokens n fun _ =>
      binary tokens.length q (operators :: tighter) := by
  intro c hn hc
  apply (hoperand c hn hc).bind
  intro left i hi hlength
  have hfew : tokens.length - i ≤ tokens.length := Nat.sub_le _ _
  have hless : tokens.length - i < rounds := Nat.lt_of_le_of_lt hfew hrounds
  exact (operatorsOn_reads (c := c.moved i) hn hlength hgoesOn hoperand hfew hless left).mono hi

end Descent

end TwinScript
