import TwinScript.Proofs.Syntax.Tracking

/-!
# Only kinds and line breaks matter to the grammar

Every production reads tokens alike in the same way (`Parser.Tracks`), with any number of rounds
that suffices.

* `parse_alike`: lists of tokens that agree in their kinds, and in where lines break between
  neighbours, are parsed alike.
* `parse_append`: where two lists of tokens are programs each by itself, the one behind the other on
  new lines is the two programs in a row.
-/

namespace TwinScript

variable {tok : Token → Token → Prop} {place : Position → Position → Prop} {behind : List Mark}

/-- The inner productions read alike tokens alike. -/
structure Inner.Tracks (tok : Token → Token → Prop) (place : Position → Position → Prop)
    (behind : List Mark) (n : Nat) (inner inner' : Inner) : Prop where
  expression : inner.expression.Tracks tok behind n 1 (Expr.Like place) inner'.expression
  operand : inner.operand.Tracks tok behind n 1 (Expr.Like place) inner'.operand
  block : ∀ ctx, (inner.block ctx).Tracks tok behind n 1 (Stmt.AllLike place) (inner'.block ctx)

/-- What holds of longer lists of tokens holds of shorter ones. -/
theorem Inner.Tracks.mono {n m : Nat} {inner inner' : Inner}
    (h : inner.Tracks tok place behind n inner') (hm : m ≤ n) :
    inner.Tracks tok place behind m inner' :=
  ⟨h.expression.mono hm (Nat.le_refl _), h.operand.mono hm (Nat.le_refl _),
    fun ctx => (h.block ctx).mono hm (Nat.le_refl _)⟩

/-! ## Where repetitions stop -/

/-- A statement of its own never goes on with an expression that ended on a line above it. -/
theorem OpensStatement.continuesWith_eq (hopens : OpensStatement behind) {symbols : List Symbol}
    (hstay : ∀ s ∈ openers, symbols.contains s = true → s.staysOnLine = true) (m : Mark)
    (hm : behind.head? = some m) : m.continuesWith symbols = false := by
  obtain ⟨hjoined, hkind⟩ := hopens m hm
  unfold Mark.continuesWith
  cases hk : m.token.kind with
  | symbol s =>
    dsimp only
    rw [hjoined]
    by_cases hs : symbols.contains s = true
    · have hline := hstay s (hkind s hk) hs
      rw [hs, hline]
      rfl
    · simp only [Bool.not_eq_true] at hs
      rw [hs]
      rfl
  | _ => rfl

/-- Whether an operator goes on with an expression shows from its kind and its join. -/
theorem continuesWith_alike (htok : TokensAt tok place) (symbols : List Symbol) (m m' : Mark)
    (hm : m.Like tok m') : m.continuesWith symbols = m'.continuesWith symbols := by
  have hkind := (htok _ _ hm.token).1
  unfold Mark.continuesWith
  rw [hkind, hm.joined_eq]

/-- Whether a token is one of some symbols shows from its kind. -/
theorem isOneOf_alike (htok : TokensAt tok place) (symbols : List Symbol) (m m' : Mark)
    (hm : m.Like tok m') : m.isOneOf symbols = m'.isOneOf symbols := by
  have hkind := (htok _ _ hm.token).1
  unfold Mark.isOneOf
  rw [hkind]

/-- Nothing is read where no token of the wanted sort comes next. -/
theorem acceptIf_stops {wanted : Mark → Bool} {s : List Mark}
    (h : ∀ m, s.head? = some m → wanted m = false) : acceptIf wanted s = .ok (none, s) := by
  cases s with
  | nil => rfl
  | cons m rest => simp [acceptIf, h m rfl]

/-- A row of operators ends where none of them goes on. -/
theorem operatorsOn_stops {operators : List Symbol} {s : List Mark}
    (h : ∀ m, s.head? = some m → m.continuesWith operators = false) (operand : Parser Expr)
    (more : Nat) (left : Expr) : operatorsOn operators operand more left s = .ok (left, s) := by
  cases more with
  | zero => rfl
  | succ more =>
    unfold operatorsOn
    rw [Parser.bind_apply, acceptIf_stops h]
    rfl

/-- Calls end where no parenthesis goes on. -/
theorem callsOn_stops {s : List Mark}
    (h : ∀ m, s.head? = some m → m.continuesWith [.leftParen] = false) (rounds : Nat)
    (inner : Inner) (more : Nat) (callee : Expr) :
    callsOn rounds inner more callee s = .ok (callee, s) := by
  cases more with
  | zero => rfl
  | succ more =>
    unfold callsOn
    rw [Parser.bind_apply, acceptIf_stops h]
    rfl

/-- Items end where no comma comes next. -/
theorem afterCommas_stops {α : Type} {s : List Mark} (h : nextIs .comma s = false)
    (item : Parser α) (more : Nat) (items : List α) :
    afterCommas item more items s = .ok (items.reverse, s) := by
  cases more with
  | zero => rfl
  | succ more =>
    unfold afterCommas
    rw [Parser.bind_apply]
    simp [accept, h]

/-- Of no tokens, whatever is said of the first holds. -/
theorem head?_nil_of {P : Mark → Prop} : ∀ m, ([] : List Mark).head? = some m → P m := by
  intro m h
  cases h

section

variable {n : Nat}

/-! ## Lists and operators -/

/-- Operators of one level, each with its operand. -/
theorem operatorsOn_tracks (htok : TokensAt tok place) (hopens : OpensStatement behind)
    {operators : List Symbol}
    (hstay : ∀ s ∈ openers, operators.contains s = true → s.staysOnLine = true)
    {operand operand' : Parser Expr} (more more' : Nat)
    (hoperand : operand.Tracks tok behind n 1 (Expr.Like place) operand')
    (hmore : n ≤ more) (hmore' : n ≤ more') {left left' : Expr} (hleft : left.Like place left') :
    (operatorsOn operators operand more left).Tracks tok behind n 0 (Expr.Like place)
      (operatorsOn operators operand' more' left') := by
  have hstop := hopens.continuesWith_eq hstay
  induction more generalizing n more' left left' with
  | zero => exact .of_nil (by omega) rfl (operatorsOn_stops hstop _ _ _) hleft
  | succ more ih =>
    cases more' with
    | zero => exact .of_nil (by omega) (operatorsOn_stops head?_nil_of _ _ _) rfl hleft
    | succ more' =>
      unfold operatorsOn
      refine Parser.Tracks.acceptIfBind (l := 1) (continuesWith_alike htok operators) hstop
        (Parser.Tracks.pure hleft) (fun t t' ht => ?_) (Nat.zero_le _)
      obtain ⟨hkind, hpos⟩ := htok t t' ht
      apply (hoperand.mono (Nat.sub_le n 1) (Nat.le_refl 1)).bind_shorter (l := 0)
      intro r r' hr
      rw [← hkind]
      exact ih more' (hoperand.mono (by omega) (Nat.le_refl 1)) (by omega) (by omega)
        (.binary hpos t.kind hleft hr)

/-- Levels of operators over an operand. -/
theorem binary_tracks (htok : TokensAt tok place) (hopens : OpensStatement behind)
    {rounds rounds' : Nat} (hrounds : n ≤ rounds) (hrounds' : n ≤ rounds')
    {operand operand' : Parser Expr}
    (hoperand : operand.Tracks tok behind n 1 (Expr.Like place) operand')
    {levels : List (List Symbol)}
    (hstay : ∀ operators ∈ levels, ∀ s ∈ openers, operators.contains s = true →
      s.staysOnLine = true) :
    (binary rounds operand levels).Tracks tok behind n 1 (Expr.Like place)
      (binary rounds' operand' levels) := by
  induction levels with
  | nil => exact hoperand
  | cons operators tighter ih =>
    rw [List.forall_mem_cons] at hstay
    have hlevel := ih hstay.2
    apply Parser.Tracks.bind (l := 0) hlevel
    intro left left' hleft
    exact operatorsOn_tracks htok hopens hstay.1 _ _ hlevel hrounds hrounds' hleft

/-- Items behind commas, after those that are read already. -/
theorem afterCommas_tracks (htok : TokensAt tok place) (hopens : OpensStatement behind)
    {α β : Type} {R : α → β → Prop} {item : Parser α} {item' : Parser β} (more more' : Nat)
    (hitem : item.Tracks tok behind n 1 R item') (hmore : n ≤ more) (hmore' : n ≤ more')
    {items : List α} {items' : List β} (hitems : List.Forall₂ R items items') :
    (afterCommas item more items).Tracks tok behind n 0 (List.Forall₂ R)
      (afterCommas item' more' items') := by
  have hcomma : Symbol.comma ∉ openers := by decide
  have hreverse : List.Forall₂ R items.reverse items'.reverse := List.rel_reverse hitems
  have hstop : nextIs .comma behind = false :=
    (Parser.nextIs_alike htok hopens hcomma .nil).symm
  induction more generalizing n more' items items' with
  | zero => exact .of_nil (by omega) rfl (afterCommas_stops hstop _ _ _) hreverse
  | succ more ih =>
    cases more' with
    | zero => exact .of_nil (by omega) (afterCommas_stops rfl _ _ _) rfl hreverse
    | succ more' =>
      unfold afterCommas
      refine Parser.Tracks.acceptBind htok hopens hcomma (l := 1) ?_ (Parser.Tracks.pure hreverse)
        (Nat.zero_le _)
      apply (hitem.mono (Nat.sub_le n 1) (Nat.le_refl 1)).bind_shorter (l := 0)
      intro a b hab
      exact ih more' (hitem.mono (by omega) (Nat.le_refl 1)) (by omega) (by omega)
        (.cons hab hitems) (List.rel_reverse (.cons hab hitems))

/-- A list in parentheses, behind the opening one. -/
theorem commaSeparated_tracks (htok : TokensAt tok place) (hopens : OpensStatement behind)
    {α β : Type} {R : α → β → Prop} {item : Parser α} {item' : Parser β} {rounds rounds' : Nat}
    (hrounds : n ≤ rounds) (hrounds' : n ≤ rounds')
    (hitem : item.Tracks tok behind n 1 R item') (what : String) :
    (commaSeparated rounds item what).Tracks tok behind n 1 (List.Forall₂ R)
      (commaSeparated rounds' item' what) := by
  unfold commaSeparated
  refine Parser.Tracks.acceptBind htok hopens (by decide) (l := 0) (Parser.Tracks.pure .nil) ?_
    (Nat.le_refl _)
  refine (hitem.bind (l := 0) fun first first' hfirst => ?_)
  refine Parser.Tracks.mono (k := 1) ?_ (Nat.le_refl _) (Nat.zero_le _)
  refine (afterCommas_tracks htok hopens _ _ hitem hrounds hrounds' (.cons hfirst .nil)).bind
    (l := 1) fun items items' hitems => ?_
  exact (Parser.expect_tracks htok .rightParen what).bind fun _ _ _ => Parser.Tracks.pure hitems

/-! ## Expressions -/

section

variable {rounds rounds' : Nat} {inner inner' : Inner}

/-- What is in parentheses is read alike, up to the closing one. -/
theorem parenthesized_tracks (htok : TokensAt tok place)
    (hi : inner.Tracks tok place behind n inner') :
    (parenthesized inner).Tracks tok behind n 1 (Expr.Like place) (parenthesized inner') := by
  unfold parenthesized
  apply hi.expression.bind (l := 0)
  intro e e' he
  refine Parser.Tracks.mono (k := 1) ?_ (Nat.le_refl _) (Nat.zero_le _)
  exact (Parser.expect_tracks htok .rightParen _).bind fun _ _ _ => Parser.Tracks.pure he

/-- A primary expression is told by the kind of its token. -/
theorem primary_tracks (htok : TokensAt tok place)
    (hi : inner.Tracks tok place behind n inner') :
    (primary inner).Tracks tok behind n 1 (Expr.Like place) (primary inner') := by
  refine .of_first rfl rfl ⟨rfl, .none⟩ fun m m' rest rest' hm hrest hlength => ?_
  obtain ⟨⟨kind, lexeme, pos⟩, joined⟩ := m
  obtain ⟨⟨kind', lexeme', pos'⟩, joined'⟩ := m'
  obtain ⟨rfl : kind = kind', hpos : place pos pos'⟩ := htok _ _ hm.token
  unfold primary
  dsimp only [List.cons_append]
  split
  · next hvalue => exact .ok (.literal hpos (Literal.like_ofKind? hvalue)) hrest (Nat.le_refl _)
  · exact .ok (.var hpos _) hrest (Nat.le_refl _)
  · have hshort : rest.length ≤ n := Nat.le_of_succ_le hlength
    apply (parenthesized_tracks htok hi rest rest' hrest hshort).mono
    rw [List.length_cons]
    omega
  · exact Parser.failNext_tracks _ _ _ (.cons hm hrest) hlength

/-- The calls on an expression. -/
theorem callsOn_tracks (htok : TokensAt tok place) (hopens : OpensStatement behind)
    (hrounds : n ≤ rounds) (hrounds' : n ≤ rounds') (more more' : Nat)
    (hi : inner.Tracks tok place behind n inner') (hmore : n ≤ more) (hmore' : n ≤ more')
    {callee callee' : Expr} (hcallee : callee.Like place callee') :
    (callsOn rounds inner more callee).Tracks tok behind n 0 (Expr.Like place)
      (callsOn rounds' inner' more' callee') := by
  have hstay : ∀ s ∈ openers, [Symbol.leftParen].contains s = true → s.staysOnLine = true := by
    decide
  have hstop := hopens.continuesWith_eq hstay
  induction more generalizing n more' callee callee' with
  | zero => exact .of_nil (by omega) rfl (callsOn_stops hstop _ _ _ _) hcallee
  | succ more ih =>
    cases more' with
    | zero => exact .of_nil (by omega) (callsOn_stops head?_nil_of _ _ _ _) rfl hcallee
    | succ more' =>
      unfold callsOn
      refine Parser.Tracks.acceptIfBind (l := 1) (continuesWith_alike htok _) hstop
        (Parser.Tracks.pure hcallee) (fun _ _ _ => ?_) (Nat.zero_le _)
      have hitems := commaSeparated_tracks htok hopens hrounds hrounds' hi.expression
        "')' after arguments"
      refine (hitems.mono (Nat.sub_le n 1) (Nat.le_refl 1)).bind_shorter (l := 0)
        fun args args' hargs => ?_
      exact ih (by omega) (by omega) more' (hi.mono (by omega)) (by omega) (by omega)
        (.call hcallee.pos hcallee hargs)

/-- Callees and arguments are read alike, and so are as many calls. -/
theorem call_tracks (htok : TokensAt tok place) (hopens : OpensStatement behind)
    (hrounds : n ≤ rounds) (hrounds' : n ≤ rounds')
    (hi : inner.Tracks tok place behind n inner') :
    (call rounds inner).Tracks tok behind n 1 (Expr.Like place) (call rounds' inner') := by
  unfold call
  apply (primary_tracks htok hi).bind (l := 0)
  intro callee callee' hcallee
  exact callsOn_tracks htok hopens hrounds hrounds' _ _ hi hrounds hrounds' hcallee

/-- An operand has a first token, so it cannot take one that only comes behind. -/
theorem unary_tracks (htok : TokensAt tok place) (hopens : OpensStatement behind)
    (hrounds : n ≤ rounds) (hrounds' : n ≤ rounds')
    (hi : inner.Tracks tok place behind n inner') :
    (unary rounds inner).Tracks tok behind n 1 (Expr.Like place) (unary rounds' inner') := by
  refine .of_first rfl rfl ⟨rfl, .none⟩ fun m m' rest rest' hm hrest hlength => ?_
  have hsame := isOneOf_alike htok [.bang, .minus] m m' hm
  unfold unary
  rw [Parser.bind_apply, Parser.bind_apply]
  by_cases hfound : m.isOneOf [.bang, .minus] = true
  · have hfound' : m'.isOneOf [.bang, .minus] = true := by rw [← hsame, hfound]
    simp only [acceptIf, List.cons_append, hfound, hfound', if_true]
    obtain ⟨hkind, hpos⟩ := htok _ _ hm.token
    have happlied : Parser.Tracks tok behind n 1 (Expr.Like place)
        (inner.operand >>= fun e => pure (.unary m.token.pos m.token.kind e))
        (inner'.operand >>= fun e => pure (.unary m'.token.pos m'.token.kind e)) := by
      apply hi.operand.bind (l := 0)
      intro e e' he
      rw [← hkind]
      exact Parser.Tracks.pure (.unary hpos _ he)
    have hshort : rest.length ≤ n := Nat.le_of_succ_le hlength
    apply (happlied rest rest' hrest hshort).mono
    rw [List.length_cons]
    omega
  · have hfound' : ¬ m'.isOneOf [.bang, .minus] = true := by rw [← hsame]; exact hfound
    simp only [acceptIf, List.cons_append, hfound, hfound']
    exact call_tracks htok hopens hrounds hrounds' hi _ _ (.cons hm hrest) hlength

/-- No operator but those that stay on their line can open a statement. -/
theorem operatorLevels_stay : ∀ operators ∈ operatorLevels, ∀ s ∈ openers,
    operators.contains s = true → s.staysOnLine = true := by
  decide

/-- So are expressions, level by level. -/
theorem expression_tracks (htok : TokensAt tok place) (hopens : OpensStatement behind)
    (hrounds : n ≤ rounds) (hrounds' : n ≤ rounds')
    (hi : inner.Tracks tok place behind n inner') :
    (expression rounds inner).Tracks tok behind n 1 (Expr.Like place)
      (expression rounds' inner') :=
  binary_tracks htok hopens hrounds hrounds' (unary_tracks htok hopens hrounds hrounds' hi)
    operatorLevels_stay

/-! ## Statements -/

/-- A body is read as its block is. -/
theorem body_tracks (htok : TokensAt tok place) (hi : inner.Tracks tok place behind n inner')
    (ctx : Context) :
    (body inner ctx).Tracks tok behind n 1 (Stmt.Like place) (body inner' ctx) := by
  unfold body
  refine Parser.Tracks.mono (k := 2) ?_ (Nat.le_refl _) (by decide)
  apply (Parser.expect_tracks htok .leftBrace _).bind (l := 1)
  intro _ _ _
  exact (hi.block ctx).bind fun _ _ hbody => Parser.Tracks.pure (.block hbody)

/-- A condition, and then a body. -/
theorem conditional_tracks (htok : TokensAt tok place)
    (hi : inner.Tracks tok place behind n inner') (ctx : Context) :
    (conditional inner ctx).Tracks tok behind n 1 (Stmt.Like place) (conditional inner' ctx) := by
  unfold conditional
  refine Parser.Tracks.mono (k := 2) ?_ (Nat.le_refl _) (by decide)
  apply hi.expression.bind (l := 1)
  intro condition condition' hcondition
  exact (body_tracks htok hi ctx).bind fun _ _ hbody => Parser.Tracks.pure (.ifThen hcondition hbody)

/-- A condition is missing only if the body comes at once, which a body that only comes behind does
not: without a token left, the condition is not missing, but wrong. -/
theorem loopGuard_tracks (htok : TokensAt tok place)
    (hi : inner.Tracks tok place behind n inner') :
    (loopGuard inner).Tracks tok behind n 0 (Option.Rel (Expr.Like place)) (loopGuard inner') := by
  have hsome : (some <$> inner.expression).Tracks tok behind n 1 (Option.Rel (Expr.Like place))
      (some <$> inner'.expression) := hi.expression.map fun _ _ h => .some h
  intro u u' hu hlength
  cases hu with
  | nil =>
    apply hsome.fails_nil
    intro hbehind e he
    rw [hbehind]
    exact he
  | @cons m m' rest rest' hm hrest =>
    have hnext : nextIs .leftBrace (m :: rest) = nextIs .leftBrace (m' :: rest' ++ behind) :=
      Parser.nextIs_cons htok _ hm _ _
    unfold loopGuard
    rw [← hnext]
    by_cases hbrace : nextIs .leftBrace (m :: rest) = true
    · rw [if_pos hbrace, if_pos hbrace]
      exact .ok .none (.cons hm hrest) (Nat.le_refl _)
    · rw [if_neg hbrace, if_neg hbrace]
      exact (hsome.mono (Nat.le_refl _) (Nat.zero_le 1)) _ _ (.cons hm hrest) hlength

/-- A loop, with a condition or without, at positions that are related. -/
theorem loop_tracks (htok : TokensAt tok place) (hi : inner.Tracks tok place behind n inner')
    (ctx : Context) {p q : Position} (hpq : place p q) :
    (loop inner ctx p).Tracks tok behind n 1 (Stmt.Like place) (loop inner' ctx q) := by
  rw [loop_eq, loop_eq]
  apply (loopGuard_tracks htok hi).bind (l := 1)
  intro condition condition' hcondition
  apply (body_tracks htok hi _).bind (l := 0)
  intro body body' hbody
  exact Parser.Tracks.pure (.forLoop hpq hcondition hbody)

/-- Whether `break` and `continue` are inside a loop is no matter of tokens; the error names the
keyword. -/
theorem loopControl_tracks (ctx : Context) {token token' : Token} (ht : tok token token')
    (k : Keyword) {s s' : Stmt} (hs : s.Like place s') :
    (loopControl ctx token k s).Tracks tok behind n 0 (Stmt.Like place)
      (loopControl ctx token' k s') := by
  unfold loopControl
  split
  · exact Parser.Tracks.pure hs
  · exact Parser.Tracks.throw ⟨rfl, .some ht⟩

/-- A name, parameters and a body. -/
theorem function_tracks (htok : TokensAt tok place) (hopens : OpensStatement behind)
    (hrounds : n ≤ rounds) (hrounds' : n ≤ rounds')
    (hi : inner.Tracks tok place behind n inner') :
    (function rounds inner).Tracks tok behind n 1 (Stmt.Like place)
      (function rounds' inner') := by
  unfold function
  refine Parser.Tracks.mono (k := 5) ?_ (Nat.le_refl _) (by decide)
  apply (Parser.identifier_tracks htok).bind (l := 4)
  rintro name _ rfl
  apply (Parser.expect_tracks htok .leftParen _).bind (l := 3)
  intro _ _ _
  have hparams := commaSeparated_tracks htok hopens hrounds hrounds'
    (Parser.identifier_tracks htok) "')' after parameters"
  apply hparams.bind (l := 2)
  intro params params' hall
  obtain rfl : params = params' := List.forall₂_eq_eq_eq ▸ hall
  apply (Parser.expect_tracks htok .leftBrace _).bind (l := 1)
  intro _ _ _
  apply (hi.block _).bind (l := 0)
  intro body body' hbody
  exact Parser.Tracks.pure (.function name params hbody)

/-- A value that only comes behind is not on the line of its `return`. -/
theorem returnsValue_alike (htok : TokensAt tok place) (hopens : OpensStatement behind)
    {u u' : List Mark} (hu : List.Forall₂ (Mark.Like tok) u u') :
    returnsValue u = returnsValue (u' ++ behind) := by
  cases hu with
  | nil =>
    cases behind with
    | nil => rfl
    | cons m rest =>
      have hjoined := (hopens m rfl).1
      simp [returnsValue, hjoined]
  | @cons m m' rest rest' hm hrest =>
    have hbrace := Parser.nextIs_cons htok .rightBrace hm rest (rest' ++ behind)
    have hsemicolon := Parser.nextIs_cons htok .semicolon hm rest (rest' ++ behind)
    unfold returnsValue
    rw [List.cons_append, hbrace, hsemicolon]
    simp only [List.head?_cons, Option.any_some, hm.joined_eq]

/-- Whether a value is behind `return` is told by the join and the kind of the next token. -/
theorem returnedValue_tracks (htok : TokensAt tok place) (hopens : OpensStatement behind)
    (hi : inner.Tracks tok place behind n inner') :
    (returnedValue inner).Tracks tok behind n 0 (Option.Rel (Expr.Like place))
      (returnedValue inner') := by
  have hsome : (some <$> inner.expression).Tracks tok behind n 1 (Option.Rel (Expr.Like place))
      (some <$> inner'.expression) := hi.expression.map fun _ _ h => .some h
  intro u u' hu hlength
  unfold returnedValue
  rw [← returnsValue_alike htok hopens hu]
  by_cases hvalue : returnsValue u = true
  · rw [if_pos hvalue, if_pos hvalue]
    exact (hsome.mono (Nat.le_refl _) (Nat.zero_le 1)) u u' hu hlength
  · rw [if_neg hvalue, if_neg hvalue]
    exact .ok .none hu (Nat.le_refl _)

/-- So a `return` is read alike, or refused alike outside of functions. -/
theorem returning_tracks (htok : TokensAt tok place) (hopens : OpensStatement behind)
    (hi : inner.Tracks tok place behind n inner') (ctx : Context) {token token' : Token}
    (ht : tok token token') :
    (returning inner ctx token).Tracks tok behind n 0 (Stmt.Like place)
      (returning inner' ctx token') := by
  rw [returning_eq, returning_eq]
  split
  · exact (returnedValue_tracks htok hopens hi).map fun _ _ h => .returnValue h
  · exact Parser.Tracks.throw ⟨rfl, .some ht⟩

/-- An expression by itself is read as the expression is. -/
theorem bareExpression_tracks (hi : inner.Tracks tok place behind n inner') :
    (bareExpression inner).Tracks tok behind n 1 (Stmt.Like place) (bareExpression inner') :=
  hi.expression.bind fun _ _ he => Parser.Tracks.pure (.expr he)

/-- The value of an assignment is read alike. -/
theorem assignment_tracks (hi : inner.Tracks tok place behind n inner') (name : String) :
    (assignment inner name).Tracks tok behind n 1 (Stmt.Like place) (assignment inner' name) :=
  hi.expression.bind fun _ _ he => Parser.Tracks.pure (.assign name he)

/-- A block by itself is read as its statements are. -/
theorem bareBlock_tracks (hi : inner.Tracks tok place behind n inner') (ctx : Context) :
    (bareBlock inner ctx).Tracks tok behind n 1 (Stmt.Like place) (bareBlock inner' ctx) :=
  (hi.block ctx).bind fun _ _ hbody => Parser.Tracks.pure (.block hbody)

/-- A statement behind its first token, which counts as taken. -/
theorem ReadAlike.behind_first {α β : Type} {R : α → β → Prop} {p : Parser α} {p' : Parser β}
    {k : Nat} (hp : p.Tracks tok behind n k R p') {m : Mark} {rest rest' : List Mark}
    (hrest : List.Forall₂ (Mark.Like tok) rest rest') (hlength : (m :: rest).length ≤ n) :
    ReadAlike tok behind (m :: rest).length 1 R (p rest) (p' (rest' ++ behind)) := by
  have hshort : rest.length ≤ n := Nat.le_of_succ_le hlength
  apply (hp rest rest' hrest hshort).mono
  rw [List.length_cons]
  omega

/-- Which kind of statement comes next is told by the kinds of the first two tokens. -/
theorem statement_tracks (htok : TokensAt tok place) (hopens : OpensStatement behind)
    (hrounds : n ≤ rounds) (hrounds' : n ≤ rounds')
    (hi : inner.Tracks tok place behind n inner') (ctx : Context) :
    (statement rounds inner ctx).Tracks tok behind n 1 (Stmt.Like place)
      (statement rounds' inner' ctx) := by
  intro u u' hu hlength
  cases hu with
  | nil =>
    apply (bareExpression_tracks hi).fails_nil
    intro hbehind e he
    rw [hbehind]
    exact he
  | @cons m m' rest rest' hm hrest =>
    have hbare := bareExpression_tracks hi (m :: rest) (m' :: rest') (.cons hm hrest) hlength
    have ht := hm.token
    obtain ⟨⟨kind, lexeme, pos⟩, joined⟩ := m
    obtain ⟨⟨kind', lexeme', pos'⟩, joined'⟩ := m'
    obtain ⟨rfl : kind = kind', hpos : place pos pos'⟩ := htok _ _ ht
    unfold statement
    dsimp only [List.cons_append]
    split
    · exact .behind_first (conditional_tracks htok hi ctx) hrest hlength
    · exact .behind_first (loop_tracks htok hi ctx hpos) hrest hlength
    · exact .behind_first (loopControl_tracks ctx ht _ .breakLoop) hrest hlength
    · exact .behind_first (loopControl_tracks ctx ht _ .continueLoop) hrest hlength
    · exact .behind_first (function_tracks htok hopens hrounds hrounds' hi) hrest hlength
    · exact .behind_first (returning_tracks htok hopens hi ctx ht) hrest hlength
    · exact .behind_first (bareBlock_tracks hi ctx) hrest hlength
    · have hnext := Parser.nextIs_alike htok hopens (s := .equal) (by decide) hrest
      rw [← hnext]
      by_cases hequal : nextIs .equal rest = true
      · rw [if_pos hequal, if_pos hequal]
        cases hrest with
        | nil => cases hequal
        | @cons sign sign' value value' _ hvalue =>
          have hshort : value.length ≤ n := by
            simp only [List.length_cons] at hlength
            omega
          apply (assignment_tracks hi _ value value' hvalue hshort).mono
          simp only [List.length_cons]
          omega
      · rw [if_neg hequal, if_neg hequal]
        exact hbare
    · exact hbare

end

end

end TwinScript
