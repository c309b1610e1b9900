import TwinScript.Proofs.Syntax.Programs

/-!
# Which line breaks the grammar looks at

Whether a token is on the line of the token before it is asked of the symbols that stay on a line,
where they could go on with an expression, and of what follows a `return`. `LooselyAlike` says of
two lists of tokens that they agree in these joins, and in the kinds of all tokens.

* `Parser.Overlooks`: a parser that makes the same of tokens which differ in other joins.
* `grammarWithin_overlooks`: no production looks at other joins.
* `parse_loosely_alike`: lists of tokens that agree in so much are parsed alike.
-/

namespace TwinScript

/-! ## Tokens that agree in all that is looked at -/

/-- The tokens are related one by one. A symbol that stays on a line is on the line of the token
before it in both lists or in neither, and so is what stands behind a `return`. -/
inductive LooselyAlike (tok : Token → Token → Prop) : List Mark → List Mark → Prop
  | nil : LooselyAlike tok [] []
  | cons {m m' : Mark} {rest rest' : List Mark} (token : tok m.token m'.token)
      (joined : ∀ s, m.token.kind = .symbol s → s.staysOnLine = true → m.joined = m'.joined)
      (value : m.token.kind = .keyword .returnWord →
        rest.head?.map (·.joined) = rest'.head?.map (·.joined))
      (hrest : LooselyAlike tok rest rest') : LooselyAlike tok (m :: rest) (m' :: rest')

/-- The lists have the same length. -/
theorem LooselyAlike.length_eq {tok : Token → Token → Prop} {u u' : List Mark}
    (h : LooselyAlike tok u u') : u.length = u'.length := by
  induction h with
  | nil => rfl
  | cons _ _ _ _ ih => exact congrArg (· + 1) ih

/-- Between the lists there is one with the tokens of the first and the joins of the second. -/
theorem LooselyAlike.exists_between {tok : Token → Token → Prop} {u u' : List Mark}
    (h : LooselyAlike tok u u') :
    ∃ v, LooselyAlike Eq u v ∧ List.Forall₂ (Mark.Like tok) v u' := by
  induction h with
  | nil => exact ⟨[], .nil, .nil⟩
  | @cons m m' rest rest' token joined value _ ih =>
    obtain ⟨v, hloose, halike⟩ := ih
    refine ⟨⟨m.token, m'.joined⟩ :: v, .cons rfl joined (fun hword => ?_) hloose,
      .cons ⟨token, rfl⟩ halike⟩
    rw [value hword]
    cases halike with
    | nil => rfl
    | cons hm _ => exact congrArg some hm.joined_eq.symm

/-! ## Parsers that overlook the other joins -/

/-- The answers are the same error, or the same result with tokens left that are the same but for
joins that are not looked at. -/
abbrev SameAnswer {α : Type} :
    Except ParseError (α × List Mark) → Except ParseError (α × List Mark) → Prop :=
  AnswersAlike Eq fun r r' => r.1 = r'.1 ∧ LooselyAlike Eq r.2 r'.2

/-- Whoever does not read on sees no difference. -/
theorem SameAnswer.map_fst_eq {α : Type} {x y : Except ParseError (α × List Mark)}
    (h : SameAnswer x y) : x.map Prod.fst = y.map Prod.fst := by
  cases h with
  | ok hr => exact congrArg Except.ok hr.1
  | error he => exact congrArg Except.error he

/-- The parser makes the same of tokens that differ in no join that is looked at. -/
def Parser.Overlooks {α : Type} (p : Parser α) : Prop :=
  ∀ u u', LooselyAlike Eq u u' → SameAnswer (p u) (p u')

/-- The next token is the same. -/
theorem LooselyAlike.upcoming?_eq {u u' : List Mark} (h : LooselyAlike Eq u u') :
    upcoming? u = upcoming? u' := by
  cases h with
  | nil => rfl
  | cons token _ _ _ => exact congrArg some token

/-- What symbol comes next is no matter of joins. -/
theorem LooselyAlike.nextIs_eq {u u' : List Mark} (h : LooselyAlike Eq u u') (s : Symbol) :
    nextIs s u = nextIs s u' := by
  unfold nextIs
  rw [h.upcoming?_eq]

/-- Nor is whether there are tokens left. -/
theorem LooselyAlike.isEmpty_eq {u u' : List Mark} (h : LooselyAlike Eq u u') :
    u.isEmpty = u'.isEmpty := by
  cases h <;> rfl

/-- Without their first tokens the lists agree as well. -/
theorem LooselyAlike.tail {u u' : List Mark} (h : LooselyAlike Eq u u') :
    LooselyAlike Eq u.tail u'.tail := by
  cases h with
  | nil => exact .nil
  | cons _ _ _ hrest => exact hrest

namespace Parser

variable {α β : Type}

/-- What takes no tokens overlooks all joins. -/
theorem Overlooks.pure (a : α) : (Pure.pure a : Parser α).Overlooks := fun _ _ h => .ok ⟨rfl, h⟩

/-- So does what fails without a look at the tokens. -/
theorem Overlooks.throw (e : ParseError) : (MonadExcept.throw e : Parser α).Overlooks :=
  fun _ _ _ => .error rfl

/-- Parsers that overlook joins do so one behind the other. -/
theorem Overlooks.bind {p : Parser α} {q : α → Parser β} (hp : p.Overlooks)
    (hq : ∀ a, (q a).Overlooks) : (p >>= q).Overlooks := by
  intro u u' h
  have hfirst := hp u u' h
  rw [bind_apply, bind_apply]
  generalize p u = x at hfirst ⊢
  generalize p u' = y at hfirst ⊢
  cases hfirst with
  | @ok r r' hr =>
    obtain ⟨a, t⟩ := r
    obtain ⟨a', t'⟩ := r'
    obtain ⟨rfl, ht⟩ := hr
    exact hq a t t' ht
  | error he => exact .error he

/-- What is made of the result makes no difference. -/
theorem Overlooks.map {p : Parser α} (hp : p.Overlooks) (f : α → β) : (f <$> p).Overlooks := by
  rw [map_eq_bind]
  exact hp.bind fun a => .pure (f a)

/-- A choice that was made before overlooks what both of its parsers do. -/
theorem Overlooks.ite {p q : Parser α} (c : Bool) (hp : p.Overlooks) (hq : q.Overlooks) :
    (if c = true then p else q).Overlooks := by
  split
  · exact hp
  · exact hq

end Parser

/-! ## Single tokens -/

section

open TwinScript.Parser

/-- An error at the next token names the same token. -/
theorem failNext_overlooks {α : Type} (fault : ParseFault) :
    (failNext fault : Parser α).Overlooks := by
  intro u u' h
  refine .error ?_
  rw [h.upcoming?_eq]

/-- A symbol is taken for its kind alone. -/
theorem accept_overlooks (s : Symbol) : (accept s).Overlooks := by
  intro u u' h
  unfold accept
  rw [h.nextIs_eq]
  split
  · exact .ok ⟨rfl, h.tail⟩
  · exact .ok ⟨rfl, h⟩

/-- So is one that is asked for. -/
theorem expect_overlooks (s : Symbol) (what : String) : (expect s what).Overlooks := by
  intro u u' h
  unfold expect
  rw [h.nextIs_eq]
  split
  · exact .ok ⟨rfl, h.tail⟩
  · exact failNext_overlooks _ u u' h

/-- And so is a name. -/
theorem identifier_overlooks : identifier.Overlooks := by
  intro u u' h
  cases h with
  | nil => exact failNext_overlooks _ _ _ .nil
  | @cons m m' rest rest' token joined value hrest =>
    obtain ⟨⟨kind, lexeme, pos⟩, join⟩ := m
    obtain ⟨token', join'⟩ := m'
    subst token
    cases kind with
    | identifier name => exact .ok ⟨rfl, hrest⟩
    | _ => exact failNext_overlooks _ _ _ (.cons rfl joined value hrest)

/-- A wish for the next token must not depend on other joins either. -/
theorem acceptIf_overlooks {wanted : Mark → Bool}
    (h : ∀ m m' : Mark, m.token = m'.token →
      (∀ s, m.token.kind = .symbol s → s.staysOnLine = true → m.joined = m'.joined) →
        wanted m = wanted m') : (acceptIf wanted).Overlooks := by
  intro u u' hu
  cases hu with
  | nil => exact .ok ⟨rfl, .nil⟩
  | @cons m m' rest rest' token joined value hrest =>
    unfold acceptIf
    dsimp only
    rw [h m m' token joined]
    split
    · exact .ok ⟨congrArg some token, hrest⟩
    · exact .ok ⟨rfl, .cons token joined value hrest⟩

/-- Prefix operators are taken on any line. -/
theorem isOneOf_overlooks (symbols : List Symbol) :
    (acceptIf (Mark.isOneOf symbols)).Overlooks := by
  refine acceptIf_overlooks fun m m' token _ => ?_
  unfold Mark.isOneOf
  rw [token]

/-- An operator is taken if it is on the line of its left operand, where it stays on a line: that
join is looked at, and the lists agree in it. -/
theorem continuesWith_overlooks (symbols : List Symbol) :
    (acceptIf (Mark.continuesWith symbols)).Overlooks := by
  refine acceptIf_overlooks fun m m' token joined => ?_
  unfold Mark.continuesWith
  rw [← token]
  split
  · next s hs =>
    cases hstays : s.staysOnLine with
    | false => simp
    | true => rw [joined s hs hstays]
  · rfl

/-! ## Productions -/

/-- The inner productions overlook the other joins. -/
structure Inner.Overlooks (inner : Inner) : Prop where
  expression : inner.expression.Overlooks
  operand : inner.operand.Overlooks
  block : ∀ ctx, (inner.block ctx).Overlooks

variable {rounds : Nat} {inner : Inner}

/-- Items are read one after the other, with any joins. -/
theorem afterCommas_overlooks {α : Type} {item : Parser α} (h : item.Overlooks) (more : Nat)
    (items : List α) : (afterCommas item more items).Overlooks := by
  induction more generalizing items with
  | zero => exact .pure _
  | succ more ih =>
    unfold afterCommas
    exact (accept_overlooks _).bind fun found =>
      .ite found (h.bind fun next => ih (next :: items)) (.pure _)

/-- A list in parentheses overlooks joins if its items do. -/
theorem commaSeparated_overlooks {α : Type} {item : Parser α} (h : item.Overlooks) (rounds : Nat)
    (what : String) : (commaSeparated rounds item what).Overlooks := by
  unfold commaSeparated
  refine (accept_overlooks _).bind fun found => .ite found (.pure _) (h.bind fun first => ?_)
  exact (afterCommas_overlooks h rounds _).bind fun items =>
    (expect_overlooks _ _).bind fun _ => .pure items

/-- A row of operators of one level overlooks joins if the operands do. -/
theorem operatorsOn_overlooks {operand : Parser Expr} (h : operand.Overlooks)
    (operators : List Symbol) (more : Nat) (left : Expr) :
    (operatorsOn operators operand more left).Overlooks := by
  induction more generalizing left with
  | zero => exact .pure left
  | succ more ih =>
    unfold operatorsOn
    refine (continuesWith_overlooks operators).bind fun op? => ?_
    cases op? with
    | none => exact .pure left
    | some op => exact h.bind fun right => ih _

/-- So do all levels of binary operators. -/
theorem binary_overlooks {operand : Parser Expr} (h : operand.Overlooks)
    (levels : List (List Symbol)) : (binary rounds operand levels).Overlooks := by
  induction levels with
  | nil => exact h
  | cons operators tighter ih =>
    unfold binary
    exact ih.bind fun left => operatorsOn_overlooks ih operators rounds left

section

variable (hi : inner.Overlooks)
include hi

/-- Primary expressions overlook joins where the expressions in parentheses do. -/
theorem primary_overlooks : (primary inner).Overlooks := by
  have hparen : (parenthesized inner).Overlooks :=
    hi.expression.bind fun e => (expect_overlooks _ _).bind fun _ => .pure e
  intro u u' h
  cases h with
  | nil => exact failNext_overlooks _ _ _ .nil
  | @cons m m' rest rest' token joined value hrest =>
    obtain ⟨t, join⟩ := m
    obtain ⟨t', join'⟩ := m'
    dsimp only at token
    subst token
    unfold primary
    dsimp only
    split
    · exact .ok ⟨rfl, hrest⟩
    · exact .ok ⟨rfl, hrest⟩
    · exact hparen _ _ hrest
    · exact failNext_overlooks _ _ _ (.cons rfl joined value hrest)

/-- The parenthesis of a call stays on the line of the callee, and the lists agree in that. -/
theorem callsOn_overlooks (more : Nat) (callee : Expr) :
    (callsOn rounds inner more callee).Overlooks := by
  induction more generalizing callee with
  | zero => exact .pure callee
  | succ more ih =>
    unfold callsOn
    refine (continuesWith_overlooks _).bind fun paren? => ?_
    cases paren? with
    | none => exact .pure callee
    | some paren =>
      exact (commaSeparated_overlooks hi.expression rounds _).bind fun args => ih _

/-- Prefix operators and what they are applied to overlook joins. -/
theorem unary_overlooks : (unary rounds inner).Overlooks := by
  unfold unary
  refine (isOneOf_overlooks _).bind fun op? => ?_
  cases op? with
  | none => exact (primary_overlooks hi).bind fun callee => callsOn_overlooks hi rounds callee
  | some op => exact hi.operand.bind fun operand => .pure _

/-- Expressions overlook joins. -/
theorem expression_overlooks : (expression rounds inner).Overlooks :=
  binary_overlooks (unary_overlooks hi) operatorLevels

/-- The body of a conditional or a loop overlooks joins where blocks do. -/
theorem body_overlooks (ctx : Context) : (body inner ctx).Overlooks :=
  (expect_overlooks _ _).bind fun _ => (hi.block ctx).bind fun _ => .pure _

/-- Loops overlook joins, with and without a condition. -/
theorem loop_overlooks (ctx : Context) (pos : Position) : (loop inner ctx pos).Overlooks := by
  have hguard : (loopGuard inner).Overlooks := by
    intro u u' h
    unfold loopGuard
    rw [h.nextIs_eq]
    split
    · exact .ok ⟨rfl, h⟩
    · exact hi.expression.map some u u' h
  rw [loop_eq]
  exact hguard.bind fun _ => (body_overlooks hi _).bind fun _ => .pure _

/-- Declarations overlook joins. -/
theorem function_overlooks : (function rounds inner).Overlooks :=
  identifier_overlooks.bind fun _ => (expect_overlooks _ _).bind fun _ =>
    (commaSeparated_overlooks identifier_overlooks rounds _).bind fun _ =>
      (expect_overlooks _ _).bind fun _ => (hi.block _).bind fun _ => .pure _

/-- Behind its keyword, a `return` looks at whether the next token is on its line. -/
theorem returning_overlooks (ctx : Context) (token : Token) {u u' : List Mark}
    (h : LooselyAlike Eq u u') (hhead : u.head?.map (·.joined) = u'.head?.map (·.joined)) :
    SameAnswer (returning inner ctx token u) (returning inner ctx token u') := by
  have hany (u : List Mark) : u.head?.any (·.joined) = (u.head?.map (·.joined)).any id := by
    cases u <;> rfl
  have hvalue : SameAnswer (returnedValue inner u) (returnedValue inner u') := by
    have hreturns : returnsValue u = returnsValue u' := by
      unfold returnsValue
      rw [hany, hany, hhead, h.nextIs_eq, h.nextIs_eq]
    unfold returnedValue
    rw [hreturns]
    split
    · exact hi.expression.map some u u' h
    · exact .ok ⟨rfl, h⟩
  rw [returning_eq]
  split
  · rw [map_eq_bind, bind_apply, bind_apply]
    generalize returnedValue inner u = x at hvalue ⊢
    generalize returnedValue inner u' = y at hvalue ⊢
    cases hvalue with
    | ok hr => exact .ok ⟨congrArg Stmt.returnValue hr.1, hr.2⟩
    | error he => exact .error he
  · exact .error rfl

/-- Each kind of statement overlooks joins. Behind a `return` the join of the next token is looked
at, and the lists agree in that one. -/
theorem statement_overlooks (ctx : Context) : (statement rounds inner ctx).Overlooks := by
  have hexpr : (bareExpression inner).Overlooks := hi.expression.bind fun e => .pure _
  have hcontrol (token : Token) (k : Keyword) (s : Stmt) :
      (loopControl ctx token k s).Overlooks := .ite _ (.pure s) (.throw _)
  intro u u' h
  cases h with
  | nil => exact hexpr _ _ .nil
  | @cons m m' rest rest' token joined value hrest =>
    obtain ⟨t, join⟩ := m
    obtain ⟨t', join'⟩ := m'
    dsimp only at token
    subst token
    unfold statement
    dsimp only
    split
    · have hconditional : (conditional inner ctx).Overlooks :=
        hi.expression.bind fun _ => (body_overlooks hi ctx).bind fun _ => .pure _
      exact hconditional _ _ hrest
    · exact loop_overlooks hi ctx _ _ _ hrest
    · exact hcontrol _ _ _ _ _ hrest
    · exact hcontrol _ _ _ _ _ hrest
    · exact function_overlooks hi _ _ hrest
    · next hword => exact returning_overlooks hi ctx t hrest (value hword)
    · have hblock : (bareBlock inner ctx).Overlooks := (hi.block ctx).bind fun _ => .pure _
      exact hblock _ _ hrest
    · next name _ =>
      have hassign : (assignment inner name).Overlooks := hi.expression.bind fun _ => .pure _
      rw [hrest.nextIs_eq]
      split
      · exact hassign _ _ hrest.tail
      · exact hexpr _ _ (.cons rfl joined value hrest)
    · exact hexpr _ _ (.cons rfl joined value hrest)

end

/-- Semicolons are dropped from both lists. -/
theorem LooselyAlike.dropSemicolons {u u' : List Mark} (h : LooselyAlike Eq u u') :
    LooselyAlike Eq (TwinScript.dropSemicolons u) (TwinScript.dropSemicolons u') := by
  induction h with
  | nil => exact .nil
  | @cons m m' rest rest' token joined value hrest ih =>
    unfold TwinScript.dropSemicolons at ih ⊢
    rw [List.dropWhile_cons, List.dropWhile_cons, ← token]
    split
    · exact ih
    · exact .cons token joined value hrest

/-- Statements overlook joins one behind the other. -/
theorem statements_overlooks (hi : inner.Overlooks) (ctx : Context) (inBlock : Bool) (more : Nat)
    (done : List Stmt) : (statements rounds inner ctx inBlock more done).Overlooks := by
  induction more generalizing done with
  | zero => exact .pure _
  | succ more ih =>
    have hgoesOn : (statement rounds inner ctx >>= fun next =>
        statements rounds inner ctx inBlock more (next :: done)).Overlooks :=
      (statement_overlooks hi ctx).bind fun next => ih _
    intro u u' h
    have hdrop := h.dropSemicolons
    rw [statements_succ, statements_succ, hdrop.isEmpty_eq, hdrop.nextIs_eq]
    split
    · exact .ok ⟨rfl, hdrop⟩
    · exact hgoesOn _ _ hdrop

/-- And so do blocks. -/
theorem block_overlooks (hi : inner.Overlooks) (ctx : Context) :
    (block rounds inner ctx).Overlooks :=
  (statements_overlooks hi ctx true rounds []).bind fun body =>
    (expect_overlooks _ _).bind fun _ => .pure body

/-- No production looks at other joins. -/
theorem grammarWithin_overlooks (rounds room : Nat) : (grammarWithin rounds room).Overlooks := by
  induction room with
  | zero => exact ⟨failNext_overlooks _, failNext_overlooks _, fun _ => failNext_overlooks _⟩
  | succ room ih =>
    exact ⟨expression_overlooks ih, unary_overlooks ih, fun ctx => block_overlooks ih ctx⟩

/-- **The grammar looks at few joins.** Lists of tokens that agree in those, and in the kinds of
their tokens, are parsed alike. -/
theorem parse_loosely_alike {tok : Token → Token → Prop} {place : Position → Position → Prop}
    (htok : TokensAt tok place) {tokens tokens' : List Token}
    (h : LooselyAlike tok (marks tokens) (marks tokens')) :
    AnswersAlike (ParseError.Like tok) (Stmt.AllLike place) (parse tokens) (parse tokens') := by
  obtain ⟨between, hloose, halike⟩ := h.exists_between
  have hlength := length_marks tokens
  have hbetween : between.length = (marks tokens).length := hloose.length_eq.symm
  have hread : SameAnswer
      (program tokens.length (grammarWithin tokens.length maxNesting) (marks tokens))
      (program tokens.length (grammarWithin tokens.length maxNesting) between) :=
    statements_overlooks (grammarWithin_overlooks _ _) _ _ _ _ _ _ hloose
  have hbetween' : between.length = (marks tokens').length := halike.length_eq
  have hlength' := length_marks tokens'
  have hroom : between.length ≤ tokens.length := by omega
  have hroom' : between.length ≤ tokens'.length := by omega
  rw [parse_eq, parse_eq, hread.map_fst_eq]
  exact program_alike htok halike hroom hroom'

end

end TwinScript
