import TwinScript.Proofs.Syntax.Programs

/-!
# How far the grammar looks

No production looks further than it has to. One that succeeds has looked at the tokens it took and
at the next one; one that fails at a token has looked at the tokens up to that one. What follows may
be anything.

There is one exception. A name that opens a statement is looked at together with the token behind
it, which may be the sign of an assignment. If an expression is nested too deep there, the error
names a token that depends on that sign, but it is an error about nesting in any case.

* `Settled`, `Parser.Settles`: nothing but these tokens matters. The property composes along `do`.
* `FirstDecides`: most productions are chosen by their first token, so it is enough to say of each
  first token how the production goes on.
* `grammarWithin_settles`, `program_settles`: the property holds of the whole grammar, by induction
  on the room for nesting.
-/

namespace TwinScript

/-! ## What settles an answer -/

section

variable {α β : Type}

/-- The answer is the error `e`, or another error about nesting if `e` is one. -/
def FailsLike (e : ParseError) (answer : Except ParseError α) : Prop :=
  ∃ e', answer = .error e' ∧ e'.fault = e.fault ∧ (e.fault ≠ .nestingTooDeep → e' = e)

/-- An answer that is the error itself fails like it, whatever the error is about. -/
theorem FailsLike.of_eq {e : ParseError} {answer : Except ParseError α} (h : answer = .error e) :
    FailsLike e answer := ⟨e, h, rfl, fun _ => rfl⟩

/-- What the parser answers on the tokens `s` is settled by those that it looks at: if it succeeds,
by the tokens it takes and the next one, and if it fails at a token, by the tokens up to that
one. -/
inductive Settled (p : Parser α) (s : List Mark) : Except ParseError (α × List Mark) → Prop
  | ok {a : α} {front t : List Mark} (hs : s = front ++ t)
      (hagain : ∀ t', t'.head? = t.head? → p (front ++ t') = .ok (a, t')) : Settled p s (.ok (a, t))
  | error {e : ParseError} {front u : List Mark} {m : Mark} (hs : s = front ++ m :: u)
      (htoken : e.token? = some m.token) (hagain : ∀ u', FailsLike e (p (front ++ m :: u'))) :
      Settled p s (.error e)
  | atEnd {e : ParseError} (htoken : e.token? = none) : Settled p s (.error e)

/-- What the parser answers is always settled by the tokens that it looks at. -/
def Parser.Settles (p : Parser α) : Prop := ∀ s, Settled p s (p s)

/-- What comes behind some tokens is looked at only in its first one. -/
theorem head?_append_congr (front : List Mark) {t t' : List Mark} (h : t'.head? = t.head?) :
    (front ++ t').head? = (front ++ t).head? := by
  rw [List.head?_append, List.head?_append, h]

/-- Two parsers that agree where the next token is this one. -/
theorem Settled.congr {p q : Parser α} {s : List Mark} {answer : Except ParseError (α × List Mark)}
    (hq : Settled q s answer) (h : ∀ t, t.head? = s.head? → p t = q t) : Settled p s answer := by
  cases hq with
  | @ok a front t hs hagain =>
    refine .ok hs fun t' ht' => ?_
    rw [h _ (hs ▸ head?_append_congr front ht')]
    exact hagain t' ht'
  | @error e front u m hs htoken hagain =>
    refine .error hs htoken fun u' => ?_
    rw [h _ (hs ▸ head?_append_congr front rfl)]
    exact hagain u'
  | atEnd htoken => exact .atEnd htoken

/-- One token is taken, and what is done behind it may depend on the next one. -/
theorem Settled.behind {p q : Parser α} {m : Mark} {s : List Mark}
    {answer : Except ParseError (α × List Mark)} (hq : Settled q s answer)
    (h : ∀ t, t.head? = s.head? → p (m :: t) = q t) : Settled p (m :: s) answer := by
  cases hq with
  | @ok a front t hs hagain =>
    refine @Settled.ok _ _ _ a (m :: front) t (congrArg (m :: ·) hs) fun t' ht' => ?_
    rw [List.cons_append, h _ (hs ▸ head?_append_congr front ht')]
    exact hagain t' ht'
  | @error e front u m' hs htoken hagain =>
    refine @Settled.error _ _ _ e (m :: front) u m' (congrArg (m :: ·) hs) htoken fun u' => ?_
    rw [List.cons_append, h _ (hs ▸ head?_append_congr front rfl)]
    exact hagain u'
  | atEnd htoken => exact .atEnd htoken

/-- Whatever follows, the next token is refused. -/
theorem Settled.refused {p : Parser α} {m : Mark} {e : ParseError}
    (htoken : e.token? = some m.token) (h : ∀ t, FailsLike e (p (m :: t))) (s : List Mark) :
    Settled p (m :: s) (.error e) :=
  @Settled.error _ p _ e [] s m rfl htoken h

namespace Parser

/-- An answer that does not depend on the tokens is settled by none of them. -/
theorem Settles.pure (a : α) : (Pure.pure a : Parser α).Settles :=
  fun s => @Settled.ok _ _ s a [] s rfl fun _ _ => rfl

/-- Reading on is settled where both parts are: the tokens of the second part stand behind those of
the first, so its next token is the one that the whole looks at. -/
theorem Settles.bind {p : Parser α} {q : α → Parser β} (hp : p.Settles)
    (hq : ∀ a, (q a).Settles) : (p >>= q).Settles := by
  intro s
  rw [bind_apply]
  have hfirst := hp s
  generalize p s = answer at hfirst ⊢
  cases hfirst with
  | @ok a front t hs hagain =>
    have hnext := hq a t
    dsimp only
    generalize q a t = answer at hnext ⊢
    cases hnext with
    | @ok b more u ht hmore =>
      subst ht
      refine @Settled.ok _ _ _ b (front ++ more) u (by rw [hs, List.append_assoc]) fun u' hu' => ?_
      rw [bind_apply, List.append_assoc, hagain _ (head?_append_congr more hu')]
      exact hmore u' hu'
    | @error e more u m ht htoken hmore =>
      subst ht
      refine @Settled.error _ _ _ e (front ++ more) u m (by rw [hs, List.append_assoc]) htoken
        fun u' => ?_
      have hhead : (more ++ m :: u').head? = (more ++ m :: u).head? := head?_append_congr more rfl
      rw [bind_apply, List.append_assoc, hagain _ hhead]
      exact hmore u'
    | atEnd htoken => exact .atEnd htoken
  | @error e front u m hs htoken hagain =>
    refine .error hs htoken fun u' => ?_
    obtain ⟨e', he', hlike⟩ := hagain u'
    refine ⟨e', ?_, hlike⟩
    rw [bind_apply, he']
  | atEnd htoken => exact .atEnd htoken

/-- What is made of an answer is settled with it. -/
theorem Settles.map {p : Parser α} (hp : p.Settles) (f : α → β) : (f <$> p).Settles := by
  rw [map_eq_bind]
  exact hp.bind fun a => .pure (f a)

/-- A choice that does not look at the tokens is settled in both of its cases. -/
theorem Settles.ite {p q : Parser α} (c : Bool) (hp : p.Settles) (hq : q.Settles) :
    (if c = true then p else q).Settles := by
  split
  · exact hp
  · exact hq

end Parser

/-! ## Choice by the first token -/

/-- The parser takes the token `m` where it is the first one, and goes on. -/
def Parser.TakesFirst (p : Parser α) (m : Mark) : Prop :=
  ∃ q : Parser α, q.Settles ∧ ∀ t, p (m :: t) = q t

/-- A parser whose first part takes the token takes it as well, whatever it does behind it. -/
theorem Parser.TakesFirst.bind {p : Parser α} {q : α → Parser β} {m : Mark} (hp : p.TakesFirst m)
    (hq : ∀ a, (q a).Settles) : (p >>= q).TakesFirst m := by
  obtain ⟨r, hr, heq⟩ := hp
  refine ⟨r >>= q, hr.bind hq, fun t => ?_⟩
  rw [bind_apply, bind_apply, heq]

/-- The token `m`, where it is the first one, decides how the parser goes on: behind it, before it,
or not at all. -/
inductive FirstDecides (p : Parser α) (m : Mark) : Prop
  | takes (h : p.TakesFirst m)
  | leaves (q : Parser α) (hq : q.Settles) (h : ∀ t, p (m :: t) = q (m :: t))
  | refuses (e : ParseError) (htoken : e.token? = some m.token) (h : ∀ t, p (m :: t) = .error e)

/-- What happens behind the first token is all there is to settle. -/
theorem FirstDecides.settled {p : Parser α} {m : Mark} (h : FirstDecides p m) (s : List Mark) :
    Settled p (m :: s) (p (m :: s)) := by
  cases h with
  | takes h =>
    obtain ⟨q, hq, heq⟩ := h
    rw [heq]
    exact (hq s).behind fun t _ => heq t
  | leaves q hq heq =>
    rw [heq]
    refine (hq (m :: s)).congr fun t ht => ?_
    obtain ⟨rest, rfl⟩ := List.head?_eq_some_iff.mp ht
    exact heq rest
  | refuses e htoken heq =>
    rw [heq]
    exact .refused htoken (fun t => .of_eq (heq t)) s

/-- Without a token, the parser does as another one does. -/
theorem settled_nil {p q : Parser α} (hq : q.Settles) (h : p [] = q []) : Settled p [] (p []) := by
  rw [h]
  refine (hq []).congr fun t ht => ?_
  obtain rfl := List.head?_eq_none_iff.mp ht
  exact h

/-- To settle a parser, say of each first token how it goes on; without tokens it must be a parser
that is settled already. -/
theorem Parser.Settles.of_first {p q : Parser α} (hq : q.Settles) (hnil : p [] = q [])
    (hcons : ∀ m, FirstDecides p m) : p.Settles := by
  intro s
  cases s with
  | nil => exact settled_nil hq hnil
  | cons m s => exact (hcons m).settled s

/-! ## Single tokens -/

/-- A complaint about the next token looks at no other. -/
theorem failNext_settles (fault : ParseFault) : (failNext fault : Parser α).Settles := by
  intro s
  cases s with
  | nil => exact .atEnd rfl
  | cons m s => exact .refused rfl (fun _ => .of_eq rfl) s

/-- A look at the next token sees nothing behind it. -/
theorem nextIs_of_head? {s : Symbol} {t t' : List Mark} (h : t.head? = t'.head?) :
    nextIs s t = nextIs s t' := by
  unfold nextIs upcoming?
  rw [h]

/-- A symbol is accepted on sight of the next token. -/
theorem accept_settles (s : Symbol) : (accept s).Settles := by
  refine .of_first (.pure false) rfl fun m => ?_
  by_cases hm : nextIs s [m] = true
  · refine .takes ⟨_, .pure true, fun t => ?_⟩
    exact if_pos hm
  · refine .leaves _ (.pure false) fun t => ?_
    exact if_neg hm

/-- A symbol that must come is looked for in the next token only. -/
theorem expect_settles (s : Symbol) (what : String) : (expect s what).Settles := by
  refine .of_first (failNext_settles (.expected what)) rfl fun m => ?_
  by_cases hm : nextIs s [m] = true
  · refine .takes ⟨_, .pure (), fun t => ?_⟩
    exact if_pos hm
  · refine .leaves _ (failNext_settles (.expected what)) fun t => ?_
    exact if_neg hm

/-- So is a name. -/
theorem identifier_settles : identifier.Settles := by
  refine .of_first (failNext_settles (.expected "identifier")) rfl fun m => ?_
  obtain ⟨⟨kind, lexeme, pos⟩, joined⟩ := m
  cases kind with
  | identifier name => exact .takes ⟨_, .pure name, fun _ => rfl⟩
  | _ => exact .leaves _ (failNext_settles (.expected "identifier")) fun _ => rfl

/-- A token is accepted by what it is, not by what follows it. -/
theorem acceptIf_settles (wanted : Mark → Bool) : (acceptIf wanted).Settles := by
  refine .of_first (.pure none) rfl fun m => ?_
  by_cases hm : wanted m = true
  · refine .takes ⟨_, .pure (some m.token), fun t => ?_⟩
    exact if_pos hm
  · refine .leaves _ (.pure none) fun t => ?_
    exact if_neg hm

end

/-! ## Expressions -/

/-- Of the inner productions, the answers are settled. An expression that begins with a name takes
it at once, unless no expression fits in at all. -/
structure Inner.Settles (inner : Inner) : Prop where
  expression : inner.expression.Settles
  operand : inner.operand.Settles
  block : ∀ ctx, (inner.block ctx).Settles
  name : ∀ m name, m.token.kind = .identifier name → inner.expression.TakesFirst m ∨
    ∀ s, inner.expression s = failNext .nestingTooDeep s

variable {rounds : Nat} {inner : Inner}

/-- The comma is the token that says whether another item comes. -/
theorem afterCommas_settles {α : Type} {item : Parser α} (h : item.Settles) (more : Nat)
    (items : List α) : (afterCommas item more items).Settles := by
  induction more generalizing items with
  | zero => exact .pure _
  | succ more ih =>
    unfold afterCommas
    exact (accept_settles _).bind fun found =>
      .ite found (h.bind fun next => ih (next :: items)) (.pure _)

/-- A list in parentheses is settled by the token that closes it. -/
theorem commaSeparated_settles {α : Type} {item : Parser α} (h : item.Settles) (rounds : Nat)
    (what : String) : (commaSeparated rounds item what).Settles := by
  unfold commaSeparated
  refine (accept_settles _).bind fun found => .ite found (.pure _) (h.bind fun first => ?_)
  exact (afterCommas_settles h rounds _).bind fun items =>
    (expect_settles _ _).bind fun _ => .pure items

/-- A row of operators ends at the first token that is not one of them. -/
theorem operatorsOn_settles {operand : Parser Expr} (h : operand.Settles)
    (operators : List Symbol) (more : Nat) (left : Expr) :
    (operatorsOn operators operand more left).Settles := by
  induction more generalizing left with
  | zero => exact .pure left
  | succ more ih =>
    unfold operatorsOn
    refine (acceptIf_settles _).bind fun op? => ?_
    cases op? with
    | none => exact .pure left
    | some op => exact h.bind fun right => ih _

/-- By induction on the levels: a level is a row whose operands are of the next level. -/
theorem binary_settles {operand : Parser Expr} (h : operand.Settles)
    (levels : List (List Symbol)) : (binary rounds operand levels).Settles := by
  induction levels with
  | nil => exact h
  | cons operators tighter ih =>
    unfold binary
    exact ih.bind fun left => operatorsOn_settles ih operators rounds left

/-- An expression begins with its first operand. -/
theorem binary_takesFirst {operand : Parser Expr} (h : operand.Settles) {m : Mark}
    (hm : operand.TakesFirst m) (levels : List (List Symbol)) :
    (binary rounds operand levels).TakesFirst m := by
  induction levels with
  | nil => exact hm
  | cons operators tighter ih =>
    unfold binary
    exact ih.bind fun left => operatorsOn_settles (binary_settles h tighter) operators rounds left

section

variable (hi : inner.Settles)
include hi

/-- A literal, a name or a group is chosen by its first token. -/
theorem primary_settles : (primary inner).Settles := by
  have hparen : (parenthesized inner).Settles :=
    hi.expression.bind fun e => (expect_settles _ _).bind fun _ => .pure e
  refine .of_first (failNext_settles .unexpectedToken) rfl fun m => ?_
  obtain ⟨⟨kind, lexeme, pos⟩, joined⟩ := m
  cases hvalue : Literal.ofKind? kind with
  | some value =>
    refine .takes ⟨_, .pure (.literal pos value), fun t => ?_⟩
    simp only [primary, hvalue]
    rfl
  | none =>
    cases kind with
    | identifier name => exact .takes ⟨_, .pure (.var pos name), fun _ => rfl⟩
    | symbol s =>
      cases s with
      | leftParen => exact .takes ⟨_, hparen, fun _ => rfl⟩
      | _ => exact .leaves _ (failNext_settles .unexpectedToken) fun _ => rfl
    | _ =>
      refine .leaves _ (failNext_settles .unexpectedToken) fun t => ?_
      simp only [primary, hvalue]

/-- The calls of a callee end at a token that opens no arguments on its line. -/
theorem callsOn_settles (more : Nat) (callee : Expr) :
    (callsOn rounds inner more callee).Settles := by
  induction more generalizing callee with
  | zero => exact .pure callee
  | succ more ih =>
    unfold callsOn
    refine (acceptIf_settles _).bind fun paren? => ?_
    cases paren? with
    | none => exact .pure callee
    | some paren =>
      exact (commaSeparated_settles hi.expression rounds _).bind fun args => ih _

/-- A prefix is chosen by the first token; without one, there is a callee with its calls. -/
theorem unary_settles : (unary rounds inner).Settles := by
  unfold unary
  refine (acceptIf_settles _).bind fun op? => ?_
  cases op? with
  | none => exact (primary_settles hi).bind fun callee => callsOn_settles hi rounds callee
  | some op => exact hi.operand.bind fun operand => .pure _

/-- No prefix stands before a name, so the name is taken at once. -/
theorem unary_takesFirst {m : Mark} {name : String} (hm : m.token.kind = .identifier name) :
    (unary rounds inner).TakesFirst m := by
  obtain ⟨⟨kind, lexeme, pos⟩, joined⟩ := m
  dsimp only at hm
  subst hm
  exact ⟨_, callsOn_settles hi rounds (.var pos name), fun _ => rfl⟩

/-- An expression looks no further than the operand it ends with. -/
theorem expression_settles : (expression rounds inner).Settles :=
  binary_settles (unary_settles hi) operatorLevels

/-- An expression that begins with a name takes it before it can fail. -/
theorem expression_takesFirst {m : Mark} {name : String} (hm : m.token.kind = .identifier name) :
    (expression rounds inner).TakesFirst m :=
  binary_takesFirst (unary_settles hi) (unary_takesFirst hi hm) operatorLevels

/-! ## Statements -/

/-- A body is settled by the brace that closes it. -/
theorem body_settles (ctx : Context) : (body inner ctx).Settles :=
  (expect_settles _ _).bind fun _ => (hi.block ctx).bind fun _ => .pure _

/-- Whether a loop has a condition is seen from the token behind `for`. -/
theorem loop_settles (ctx : Context) (pos : Position) : (loop inner ctx pos).Settles := by
  have hcondition : (some <$> inner.expression).Settles := hi.expression.map some
  have hguard : (loopGuard inner).Settles := by
    refine .of_first hcondition rfl fun m => ?_
    by_cases hm : nextIs .leftBrace [m] = true
    · refine .leaves _ (.pure none) fun t => ?_
      exact if_pos hm
    · refine .leaves _ hcondition fun t => ?_
      exact if_neg hm
  rw [loop_eq]
  exact hguard.bind fun _ => (body_settles hi _).bind fun _ => .pure _

/-- A function is settled by its name, its parameters and its body, one after the other. -/
theorem function_settles : (function rounds inner).Settles :=
  identifier_settles.bind fun _ => (expect_settles _ _).bind fun _ =>
    (commaSeparated_settles identifier_settles rounds _).bind fun _ =>
      (expect_settles _ _).bind fun _ => (hi.block _).bind fun _ => .pure _

/-- Whether a value is returned is seen at the next token. -/
theorem returnedValue_settles : (returnedValue inner).Settles := by
  refine .of_first (.pure none) rfl fun m => ?_
  by_cases hm : returnsValue [m] = true
  · refine .leaves _ (hi.expression.map some) fun t => ?_
    exact if_pos hm
  · refine .leaves _ (.pure none) fun t => ?_
    exact if_neg hm

omit hi in
/-- `break` and `continue` need no token behind them; one that may not stand here is refused. -/
theorem loopControl_firstDecides {p : Parser Stmt} {m : Mark} (ctx : Context) (k : Keyword)
    (s : Stmt) (h : ∀ t, p (m :: t) = loopControl ctx m.token k s t) : FirstDecides p m := by
  cases hctx : ctx.inLoop with
  | true =>
    refine .takes ⟨_, .pure s, fun t => ?_⟩
    rw [h, loopControl, if_pos hctx]
  | false =>
    refine .refuses ⟨.loopControlOutsideLoop k, some m.token⟩ rfl fun t => ?_
    rw [h, loopControl, hctx]
    rfl

/-- Inside a function `return` takes its keyword and reads a value or none behind it; outside of one
it is refused. -/
theorem returning_firstDecides {p : Parser Stmt} {m : Mark} (ctx : Context)
    (h : ∀ t, p (m :: t) = returning inner ctx m.token t) : FirstDecides p m := by
  rw [returning_eq] at h
  cases hctx : ctx.inFunction with
  | true =>
    refine .takes ⟨_, (returnedValue_settles hi).map Stmt.returnValue, fun t => ?_⟩
    rw [h, if_pos hctx]
  | false =>
    refine .refuses ⟨.returnOutsideFunction, some m.token⟩ rfl fun t => ?_
    rw [h, hctx]
    rfl

/-- An expression that stands for itself is a statement without further tokens. -/
theorem bareExpression_settles : (bareExpression inner).Settles :=
  hi.expression.bind fun _ => .pure _

/-- A statement that does not begin with a name is chosen by its first token. -/
theorem statement_firstDecides (ctx : Context) {m : Mark}
    (hname : ∀ name, m.token.kind ≠ .identifier name) :
    FirstDecides (statement rounds inner ctx) m := by
  have hbare := bareExpression_settles hi
  obtain ⟨⟨kind, lexeme, pos⟩, joined⟩ := m
  cases kind with
  | identifier name => exact absurd rfl (hname name)
  | symbol s =>
    cases s with
    | leftBrace =>
      have hblock : (bareBlock inner ctx).Settles := (hi.block ctx).bind fun _ => .pure _
      exact .takes ⟨_, hblock, fun _ => rfl⟩
    | _ => exact .leaves _ hbare fun _ => rfl
  | keyword k =>
    cases k with
    | ifWord =>
      have hconditional : (conditional inner ctx).Settles :=
        hi.expression.bind fun _ => (body_settles hi ctx).bind fun _ => .pure _
      exact .takes ⟨_, hconditional, fun _ => rfl⟩
    | forWord => exact .takes ⟨_, loop_settles hi ctx pos, fun _ => rfl⟩
    | breakWord => exact loopControl_firstDecides ctx .breakWord .breakLoop fun _ => rfl
    | continueWord => exact loopControl_firstDecides ctx .continueWord .continueLoop fun _ => rfl
    | fnWord => exact .takes ⟨_, function_settles hi, fun _ => rfl⟩
    | returnWord => exact returning_firstDecides hi ctx fun _ => rfl
    | _ => exact .leaves _ hbare fun _ => rfl
  | _ => exact .leaves _ hbare fun _ => rfl

/-- A statement that begins with a name is chosen by its second token too, and this is the next one
or one that is taken. -/
theorem statement_settled_name (ctx : Context) {m : Mark} {name : String}
    (hm : m.token.kind = .identifier name) (behind : List Mark) :
    Settled (statement rounds inner ctx) (m :: behind)
      (statement rounds inner ctx (m :: behind)) := by
  have hstatement (t : List Mark) : statement rounds inner ctx (m :: t) =
      if nextIs .equal t then assignment inner name t.tail else bareExpression inner (m :: t) := by
    simp only [statement, hm]
  by_cases hequal : nextIs .equal behind = true
  · obtain ⟨sign, value, rfl, -⟩ := Parser.nextIs_eq_true.mp hequal
    have hassign : (assignment inner name).Settles := hi.expression.bind fun _ => .pure _
    have hbehind : Settled (fun t => assignment inner name t.tail) (sign :: value)
        (assignment inner name value) := (hassign value).behind fun _ _ => rfl
    rw [hstatement, if_pos hequal]
    refine hbehind.behind fun t ht => ?_
    rw [hstatement, nextIs_of_head? ht, if_pos hequal]
  · rw [hstatement, if_neg hequal]
    rcases hi.name m name hm with htakes | hfull
    · obtain ⟨q, hq, heq⟩ : (bareExpression inner).TakesFirst m :=
        htakes.bind fun _ => .pure _
      rw [heq]
      refine (hq behind).behind fun t ht => ?_
      rw [hstatement, nextIs_of_head? ht, if_neg hequal, heq]
    · -- with an equals sign behind the name, another token would be nested too deep
      have hbare (t : List Mark) :
          bareExpression inner t = .error ⟨.nestingTooDeep, upcoming? t⟩ := by
        unfold bareExpression
        rw [Parser.bind_apply, hfull]
        rfl
      rw [hbare]
      refine .refused rfl (fun t => ?_) behind
      rw [hstatement]
      split
      · refine ⟨⟨.nestingTooDeep, upcoming? t.tail⟩, ?_, rfl, fun h => absurd rfl h⟩
        unfold assignment
        rw [Parser.bind_apply, hfull]
        rfl
      · exact .of_eq (hbare _)

/-- Each statement is chosen by its first token, but for those that begin with a name, which are
chosen by the token behind it. -/
theorem statement_settles (ctx : Context) : (statement rounds inner ctx).Settles := by
  intro s
  cases s with
  | nil => exact settled_nil (bareExpression_settles hi) rfl
  | cons m behind =>
    by_cases hname : ∃ name, m.token.kind = .identifier name
    · obtain ⟨name, hm⟩ := hname
      exact statement_settled_name hi ctx hm behind
    · exact (statement_firstDecides hi ctx fun name hm => hname ⟨name, hm⟩).settled behind

end

/-! ## Whole programs -/

/-- Semicolons that are passed over are taken. -/
theorem Parser.Settles.behindSemicolons {α : Type} {p : Parser α} (hp : p.Settles) :
    Parser.Settles fun s => p (dropSemicolons s) := by
  intro s
  induction s with
  | nil => exact settled_nil hp rfl
  | cons m s ih =>
    by_cases hm : m.token.kind = .symbol .semicolon
    · have hdrop (t : List Mark) : dropSemicolons (m :: t) = dropSemicolons t := by
        simp [dropSemicolons, hm]
      change Settled _ (m :: s) (p (dropSemicolons (m :: s)))
      rw [hdrop]
      exact ih.behind fun t _ => congrArg p (hdrop t)
    · have hdrop (t : List Mark) : dropSemicolons (m :: t) = m :: t := by
        simp [dropSemicolons, hm]
      change Settled _ (m :: s) (p (dropSemicolons (m :: s)))
      rw [hdrop]
      refine (hp (m :: s)).congr fun t ht => ?_
      obtain ⟨rest, rfl⟩ := List.head?_eq_some_iff.mp ht
      exact congrArg p (hdrop rest)

/-- By induction on the statements that may still come: each of them is settled, and so is the
semicolon behind it. -/
theorem statements_settles (hi : inner.Settles) (ctx : Context) (inBlock : Bool) (more : Nat)
    (done : List Stmt) : (statements rounds inner ctx inBlock more done).Settles := by
  induction more generalizing done with
  | zero => exact .pure _
  | succ more ih =>
    have hgoesOn : (statement rounds inner ctx >>= fun next =>
        statements rounds inner ctx inBlock more (next :: done)).Settles :=
      (statement_settles hi ctx).bind fun next => ih _
    let round : Parser (List Stmt) := fun s =>
      if s.isEmpty || (inBlock && nextIs .rightBrace s) then .ok (done.reverse, s)
      else (statement rounds inner ctx >>= fun next =>
        statements rounds inner ctx inBlock more (next :: done)) s
    have hround : round.Settles := by
      refine .of_first (.pure done.reverse) rfl fun m => ?_
      by_cases hm : (inBlock && nextIs .rightBrace [m]) = true
      · refine .leaves _ (.pure done.reverse) fun t => ?_
        exact if_pos hm
      · refine .leaves _ hgoesOn fun t => ?_
        exact if_neg hm
    have heq : statements rounds inner ctx inBlock (more + 1) done =
        fun s => round (dropSemicolons s) := funext (statements_succ more done)
    rw [heq]
    exact hround.behindSemicolons

/-- A block is settled by its statements and the brace that closes it. -/
theorem block_settles (hi : inner.Settles) (ctx : Context) : (block rounds inner ctx).Settles :=
  (statements_settles hi ctx true rounds []).bind fun body =>
    (expect_settles _ _).bind fun _ => .pure body

/-- No level of the grammar looks further than it has to. -/
theorem grammarWithin_settles (rounds room : Nat) : (grammarWithin rounds room).Settles := by
  induction room with
  | zero =>
    exact ⟨failNext_settles _, failNext_settles _, fun _ => failNext_settles _,
      fun _ _ _ => .inr fun _ => rfl⟩
  | succ room ih =>
    exact ⟨expression_settles ih, unary_settles ih, fun ctx => block_settles ih ctx,
      fun _ _ hm => .inl (expression_takesFirst ih hm)⟩

/-- What the grammar answers on a whole text is settled by the tokens that it looks at. -/
theorem program_settles (rounds room : Nat) :
    (program rounds (grammarWithin rounds room)).Settles :=
  statements_settles (grammarWithin_settles rounds room) _ _ _ _

end TwinScript
