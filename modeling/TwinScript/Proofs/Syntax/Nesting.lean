import TwinScript.Proofs.Syntax.Taking

/-!
# Brackets nest

The brackets of a program, taken out of its tokens, are a well-nested word: each opening bracket is
closed by a bracket of its own kind, behind whatever is opened in between. The grammar never counts
brackets. Each production that opens one ends with the production that closes it, so the nesting of
the word is that of the productions.

* `WellNested`: words of brackets that close all they open.
* `Closes`: what is taken is well nested up to a bracket that was opened before it.
* `Inner.Nests`: the same of the productions nested inside, and one lemma for each production.
* `wellNested_of_parse`: the brackets of what is parsed are well nested.
-/

namespace TwinScript

/-! ## Words of brackets -/

/-- The bracket that closes a bracket. -/
def Symbol.closing? : Symbol → Option Symbol
  | leftParen => some rightParen
  | leftBrace => some rightBrace
  | _ => none

/-- The bracket that a token is, if it is one. -/
def Token.Kind.bracket? : Token.Kind → Option Symbol
  | .symbol .leftParen => some .leftParen
  | .symbol .rightParen => some .rightParen
  | .symbol .leftBrace => some .leftBrace
  | .symbol .rightBrace => some .rightBrace
  | _ => none

/-- The brackets among tokens. -/
def brackets (tokens : List Token) : List Symbol :=
  tokens.filterMap (·.kind.bracket?)

/-- Every bracket that is opened is closed by a bracket of its kind, and no other is closed. -/
inductive WellNested : List Symbol → Prop
  | nil : WellNested []
  | wrap {opening closing : Symbol} {inside more : List Symbol}
      (hclosing : opening.closing? = some closing) (hinside : WellNested inside)
      (hmore : WellNested more) : WellNested (opening :: inside ++ closing :: more)

/-- Two words that close all they open do so one behind the other. -/
theorem WellNested.append {v w : List Symbol} (hv : WellNested v) (hw : WellNested w) :
    WellNested (v ++ w) := by
  induction hv with
  | nil => exact hw
  | wrap hclosing hinside _ _ ih =>
    rw [List.append_assoc, List.cons_append]
    exact .wrap hclosing hinside ih

/-- The brackets of one list of tokens stand before those of the other. -/
@[simp] theorem brackets_append (ts us : List Token) :
    brackets (ts ++ us) = brackets ts ++ brackets us := by
  simp [brackets]

/-- The symbols that close brackets, and those that they close, are brackets themselves. -/
theorem Symbol.bracket?_of_closing? {opening closing : Symbol}
    (h : opening.closing? = some closing) :
    (Token.Kind.symbol opening).bracket? = some opening ∧
      (Token.Kind.symbol closing).bracket? = some closing := by
  cases opening <;> cases h <;> exact ⟨rfl, rfl⟩

/-! ## What productions close -/

/-- The brackets among the tokens are well nested, but for `pending` at the end: that closes what
was opened before these tokens. -/
def Closes (pending : List Symbol) (taken : List Mark) : Prop :=
  ∃ nested, WellNested nested ∧ brackets (taken.map (·.token)) = nested ++ pending

namespace Closes

variable {pending : List Symbol} {taken more : List Mark} {m : Mark}

/-- No tokens close nothing. -/
theorem nil : Closes [] [] := ⟨[], .nil, rfl⟩

/-- What closes all it opens may stand before what closes a bracket from outside. -/
theorem append (h : Closes [] taken) (hmore : Closes pending more) :
    Closes pending (taken ++ more) := by
  obtain ⟨nested, hnested, hbrackets⟩ := h
  obtain ⟨nested', hnested', hbrackets'⟩ := hmore
  refine ⟨nested ++ nested', hnested.append hnested', ?_⟩
  rw [List.map_append, brackets_append, hbrackets, hbrackets', List.append_nil, List.append_assoc]

/-- Tokens that are no brackets. -/
theorem others (h : ∀ m ∈ taken, m.token.kind.bracket? = none) : Closes [] taken := by
  refine ⟨[], .nil, ?_⟩
  rw [brackets, List.nil_append, List.filterMap_eq_nil_iff]
  intro t ht
  obtain ⟨m, hm, rfl⟩ := List.mem_map.mp ht
  exact h m hm

/-- A token that is no bracket opens and closes nothing. -/
theorem other {kind : Token.Kind} (hm : m.token.kind = kind) (hkind : kind.bracket? = none) :
    Closes [] [m] := by
  refine others fun m' hm' => ?_
  rw [List.mem_singleton.mp hm', hm, hkind]

/-- A bracket that closes what was opened before. -/
theorem closing (opening : Symbol) {closing : Symbol} (hm : m.token.kind = .symbol closing)
    (hclosing : opening.closing? = some closing) : Closes [closing] [m] := by
  refine ⟨[], .nil, ?_⟩
  simp [brackets, hm, (Symbol.bracket?_of_closing? hclosing).2]

/-- An opening bracket before what closes it. -/
theorem wrap {opening closing : Symbol} (hm : m.token.kind = .symbol opening)
    (hclosing : opening.closing? = some closing) (h : Closes [closing] taken) :
    Closes [] ([m] ++ taken) := by
  obtain ⟨nested, hnested, hbrackets⟩ := h
  refine ⟨opening :: nested ++ [closing], .wrap hclosing hnested .nil, ?_⟩
  rw [List.map_append, brackets_append, hbrackets]
  simp [brackets, hm, (Symbol.bracket?_of_closing? hclosing).1]

end Closes

namespace Parser

variable {α β : Type} {pending : List Symbol} {before : List Mark}

/-- Where the parser succeeds, what it has taken closes `pending` and is well nested otherwise. -/
abbrev Nests (p : Parser α) (pending : List Symbol) : Prop :=
  p.Takes [] fun _ => Closes pending

/-- What closes a bracket does so behind other tokens, too. -/
theorem Nests.behind {p : Parser α} (hp : p.Nests pending) (hbefore : Closes [] before) :
    p.Takes before fun _ => Closes pending := by
  intro s a t h
  obtain ⟨taken, hs, htaken⟩ := hp s a t h
  exact ⟨taken, hs, hbefore.append htaken⟩

/-- An answer that takes no token opens and closes nothing. -/
theorem Nests.pure (a : α) : (Pure.pure a : Parser α).Nests [] := Takes.pure .nil

/-- A part that leaves nothing open before another. -/
theorem Nests.bind {p : Parser α} {q : α → Parser β} (hp : p.Nests [])
    (hq : ∀ a, (q a).Nests pending) : (p >>= q).Nests pending :=
  hp.bindOwn fun a _ hown => (hq a).behind hown

/-- A part that closes the bracket before it, and then another part. -/
theorem Nests.wrapBind {p : Parser α} {q : α → Parser β} {m : Mark} {opening closing : Symbol}
    (hp : p.Nests [closing]) (hm : m.token.kind = .symbol opening)
    (hclosing : opening.closing? = some closing) (hq : ∀ a, (q a).Nests pending) :
    (p >>= q).Takes [m] fun _ => Closes pending :=
  hp.bindOwn fun a _ hown => (hq a).behind (hown.wrap hm hclosing)

/-- A part that ends with the bracket that it closes. -/
theorem Nests.expectClosing (opening : Symbol) {closing : Symbol}
    (hclosing : opening.closing? = some closing) (what : String) (a : α) :
    (expect closing what >>= fun _ => Pure.pure a).Nests [closing] :=
  .expectBind fun _ hm => .pure (Closes.closing opening hm hclosing)

end Parser

/-! ## Lists and expressions -/

/-- The inner productions close what they open, and a block its opening brace as well. -/
structure Inner.Nests (inner : Inner) : Prop where
  expression : inner.expression.Nests []
  operand : inner.operand.Nests []
  block : ∀ ctx, (inner.block ctx).Nests [.rightBrace]

section

variable {α : Type} {rounds : Nat} {inner : Inner}

/-- Commas are no brackets, so only the items matter. -/
theorem afterCommas_nests {item : Parser α} (hitem : item.Nests []) (more : Nat)
    (items : List α) : (afterCommas item more items).Nests [] := by
  induction more generalizing items with
  | zero => exact .pure _
  | succ more ih =>
    unfold afterCommas
    exact .acceptBind (fun m hm => (hitem.bind fun a => ih (a :: items)).behind (.other hm rfl))
      (.pure .nil)

/-- A list in parentheses closes the one that was opened before its items. -/
theorem commaSeparated_nests {item : Parser α} (hitem : item.Nests []) (rounds : Nat)
    (what : String) : (commaSeparated rounds item what).Nests [.rightParen] := by
  unfold commaSeparated
  refine .acceptBind (fun m hm => .pure (Closes.closing .leftParen hm rfl)) ?_
  refine hitem.bind fun first => (afterCommas_nests hitem rounds [first]).bind fun items => ?_
  exact Parser.Nests.expectClosing .leftParen rfl what items

/-- Operators are no brackets, so only the operands matter. -/
theorem operatorsOn_nests {operators : List Symbol}
    (hoperators : ∀ s ∈ operators, (Token.Kind.symbol s).bracket? = none) {operand : Parser Expr}
    (hoperand : operand.Nests []) (more : Nat) (left : Expr) :
    (operatorsOn operators operand more left).Nests [] := by
  induction more generalizing left with
  | zero => exact .pure _
  | succ more ih =>
    unfold operatorsOn
    refine .acceptIfBind (.pure .nil) fun m hm => ?_
    obtain ⟨s, hs, hkind⟩ := Mark.continuesWith_eq_true hm
    exact (hoperand.bind fun _ => ih _).behind (.other hkind (hoperators s hs))

/-- By induction on the levels: each is a row with operands of the next. -/
theorem binary_nests {levels : List (List Symbol)}
    (hlevels : ∀ operators ∈ levels, ∀ s ∈ operators, (Token.Kind.symbol s).bracket? = none)
    {operand : Parser Expr} (hoperand : operand.Nests []) :
    (binary rounds operand levels).Nests [] := by
  induction levels with
  | nil => exact hoperand
  | cons operators tighter ih =>
    rw [List.forall_mem_cons] at hlevels
    have htighter := ih hlevels.2
    exact htighter.bind fun left => operatorsOn_nests hlevels.1 htighter rounds left

/-- Behind the opening parenthesis, a group closes it. -/
theorem parenthesized_nests (hi : inner.Nests) : (parenthesized inner).Nests [.rightParen] :=
  hi.expression.bind fun e => Parser.Nests.expectClosing .leftParen rfl _ e

/-- No literal is a bracket. -/
theorem Literal.bracket?_kind {kind : Token.Kind} {value : Literal} (h : value.kind? = some kind) :
    kind.bracket? = none := by
  rcases value with _ | _ | (_ | _) | _ | _ | _ <;> cases h <;> rfl

/-- A literal or a name is no bracket, and a group closes the one it opens. -/
theorem primary_nests (hi : inner.Nests) : (primary inner).Nests [] := by
  intro s e t h
  cases s with
  | nil => cases h
  | cons m behind =>
    obtain ⟨token, joined⟩ := m
    unfold primary at h
    dsimp only at h
    split at h
    · next value hvalue =>
      cases h
      have hkind := Literal.bracket?_kind (Literal.ofKind?_eq_some.mp hvalue)
      exact ⟨[_], rfl, .other rfl hkind⟩
    · next name _ hkind =>
      cases h
      exact ⟨[_], rfl, .other hkind rfl⟩
    · next hkind =>
      obtain ⟨taken, rfl, htaken⟩ := parenthesized_nests hi _ _ _ h
      exact ⟨⟨token, joined⟩ :: taken, rfl, Closes.wrap hkind rfl htaken⟩
    · cases h

/-- Each call opens its parentheses and closes them. -/
theorem callsOn_nests (hi : inner.Nests) (more : Nat) (callee : Expr) :
    (callsOn rounds inner more callee).Nests [] := by
  induction more generalizing callee with
  | zero => exact .pure _
  | succ more ih =>
    unfold callsOn
    refine .acceptIfBind (.pure .nil) fun m hm => ?_
    obtain ⟨s, hs, hkind⟩ := Mark.continuesWith_eq_true hm
    obtain rfl := List.mem_singleton.mp hs
    have hargs := commaSeparated_nests hi.expression rounds "')' after arguments"
    exact hargs.wrapBind hkind rfl fun _ => ih _

/-- A callee and its calls, one behind the other. -/
theorem call_nests (hi : inner.Nests) : (call rounds inner).Nests [] :=
  (primary_nests hi).bind fun callee => callsOn_nests hi rounds callee

/-- Prefixes are no brackets. -/
theorem unary_nests (hi : inner.Nests) : (unary rounds inner).Nests [] := by
  unfold unary
  refine .acceptIfBind (call_nests hi) fun m hm => ?_
  obtain ⟨s, hs, hkind⟩ := Mark.isOneOf_eq_true hm
  have hother : ∀ s ∈ [Symbol.bang, .minus], (Token.Kind.symbol s).bracket? = none := by decide
  exact (hi.operand.bind fun _ => .pure _).behind (.other hkind (hother s hs))

/-- An expression closes all it opens. -/
theorem expression_nests (hi : inner.Nests) : (expression rounds inner).Nests [] := by
  have hother : ∀ operators ∈ operatorLevels, ∀ s ∈ operators,
      (Token.Kind.symbol s).bracket? = none := by decide
  exact binary_nests hother (unary_nests hi)

/-! ## Statements -/

/-- A block behind an opening brace, and what is made of it. -/
theorem blockBind_nests (hi : inner.Nests) (ctx : Context) {m : Mark}
    (hm : m.token.kind = .symbol .leftBrace) (statement : List Stmt → Stmt) :
    (inner.block ctx >>= fun body => pure (statement body) : Parser Stmt).Takes [m]
      fun _ => Closes [] :=
  (hi.block ctx).wrapBind hm rfl fun _ => .pure _

/-- A body opens a brace, and the block behind it closes that one. -/
theorem body_nests (hi : inner.Nests) (ctx : Context) : (body inner ctx).Nests [] :=
  .expectBind fun _ hm => blockBind_nests hi ctx hm _

/-- A condition and a body, one behind the other. -/
theorem conditional_nests (hi : inner.Nests) (ctx : Context) :
    (conditional inner ctx).Nests [] :=
  hi.expression.bind fun _ => (body_nests hi ctx).bind fun _ => .pure _

/-- A condition or a value that is there nests as an expression. -/
theorem Parser.Nests.some {p : Parser Expr} (hp : p.Nests []) : (Option.some <$> p).Nests [] := by
  rw [map_eq_bind]
  exact hp.bind fun _ => .pure _

/-- A loop has a condition in front of its brace, or none. -/
theorem loopGuard_nests (hi : inner.Nests) : (loopGuard inner).Nests [] := by
  intro s condition t h
  unfold loopGuard at h
  split at h
  · cases h
    exact ⟨[], rfl, .nil⟩
  · exact hi.expression.some s condition t h

/-- What guards a loop, and its body, one behind the other. -/
theorem loop_nests (hi : inner.Nests) (ctx : Context) (pos : Position) :
    (loop inner ctx pos).Nests [] := by
  rw [loop_eq]
  exact (loopGuard_nests hi).bind fun _ => (body_nests hi _).bind fun _ => .pure _

/-- Behind their keyword, `break` and `continue` take nothing. -/
theorem loopControl_nests (ctx : Context) (token : Token) (k : Keyword) (statement : Stmt) :
    (loopControl ctx token k statement).Nests [] := by
  unfold loopControl
  split
  · exact .pure _
  · exact .throw _

/-- A returned value is an expression, or nothing at all. -/
theorem returnedValue_nests (hi : inner.Nests) : (returnedValue inner).Nests [] := by
  intro s value t h
  unfold returnedValue at h
  split at h
  · exact hi.expression.some s value t h
  · cases h
    exact ⟨[], rfl, .nil⟩

/-- Behind its keyword, `return` takes a value or nothing. -/
theorem returning_nests (hi : inner.Nests) (ctx : Context) (token : Token) :
    (returning inner ctx token).Nests [] := by
  rw [returning_eq]
  split
  · rw [Parser.map_eq_bind]
    exact (returnedValue_nests hi).bind fun _ => .pure _
  · exact .throw _

/-- A name is no bracket. -/
theorem identifier_nests : identifier.Nests [] := by
  intro s name t h
  unfold identifier at h
  split at h
  · cases h
    exact ⟨[_], rfl, .other rfl rfl⟩
  · cases h

/-- A function opens its parentheses behind its name, and its list of parameters closes them. -/
theorem function_nests (hi : inner.Nests) : (function rounds inner).Nests [] := by
  unfold function
  refine identifier_nests.bind fun name => .expectBind fun paren hparen => ?_
  have hparams := commaSeparated_nests identifier_nests rounds "')' after parameters"
  refine hparams.wrapBind hparen rfl fun params => ?_
  exact .expectBind fun brace hbrace => blockBind_nests hi _ hbrace _

/-- An expression that stands for itself takes no further tokens. -/
theorem bareExpression_nests (hi : inner.Nests) : (bareExpression inner).Nests [] :=
  hi.expression.bind fun _ => .pure _

/-- The sign of an assignment is no bracket. -/
theorem assignment_nests (hi : inner.Nests) (name : String) :
    (assignment inner name).Nests [] :=
  hi.expression.bind fun _ => .pure _

/-- Each kind of statement closes all it opens. -/
theorem statement_nests (hi : inner.Nests) (ctx : Context) :
    (statement rounds inner ctx).Nests [] := by
  intro rest s t h
  unfold statement at h
  split at h
  · exact bareExpression_nests hi _ _ _ h
  · next token joined behind =>
    have hword {kind : Token.Kind} {p : Parser Stmt} (hkind : token.kind = kind)
        (hnone : kind.bracket? = none) (hp : p.Nests []) {behind : List Mark}
        (h : p behind = .ok (s, t)) :
        ∃ taken, ⟨token, joined⟩ :: behind = taken ++ t ∧ Closes [] taken :=
      @Parser.Takes.of_cons _ [] _ _ _ (hp.behind (.other hkind hnone)) _ _ _ h
    split at h
    · next hkind => exact hword hkind rfl (conditional_nests hi ctx) h
    · next hkind => exact hword hkind rfl (loop_nests hi ctx token.pos) h
    · next hkind => exact hword hkind rfl (loopControl_nests ctx token _ _) h
    · next hkind => exact hword hkind rfl (loopControl_nests ctx token _ _) h
    · next hkind => exact hword hkind rfl (function_nests hi) h
    · next hkind => exact hword hkind rfl (returning_nests hi ctx token) h
    · next hkind =>
      have hblock := @blockBind_nests _ hi ctx ⟨token, joined⟩ hkind Stmt.block
      exact @Parser.Takes.of_cons _ [] _ _ _ hblock _ _ _ h
    · next name hkind =>
      split at h
      · next hequal =>
        obtain ⟨m', rest, rfl, hm'⟩ := Parser.nextIs_eq_true.mp hequal
        obtain ⟨taken, rfl, htaken⟩ := assignment_nests hi name _ _ _ h
        refine ⟨⟨token, joined⟩ :: m' :: taken, rfl, ?_⟩
        exact (Closes.other hkind rfl).append ((Closes.other hm' rfl).append htaken)
      · exact bareExpression_nests hi _ _ _ h
    · exact bareExpression_nests hi _ _ _ h

/-- Semicolons are no brackets. -/
theorem dropSemicolons_closes (s : List Mark) :
    ∃ semicolons, s = semicolons ++ dropSemicolons s ∧ Closes [] semicolons := by
  refine ⟨s.takeWhile (·.token.kind = .symbol .semicolon), List.takeWhile_append_dropWhile.symm,
    .others fun m hm => ?_⟩
  have hkind := List.mem_takeWhile_imp hm
  rw [decide_eq_true_eq] at hkind
  rw [hkind]
  rfl

/-- By induction on the statements that may still come; semicolons are no brackets. -/
theorem statements_nests (hi : inner.Nests) (ctx : Context) (inBlock : Bool) (more : Nat)
    (done : List Stmt) : (statements rounds inner ctx inBlock more done).Nests [] := by
  induction more generalizing done with
  | zero => exact .pure _
  | succ more ih =>
    intro s body t h
    obtain ⟨semicolons, hs, hsemicolons⟩ := dropSemicolons_closes s
    rw [statements_succ] at h
    split at h
    · cases h
      exact ⟨semicolons, hs, hsemicolons⟩
    · have hgoesOn : (statement rounds inner ctx >>= fun next =>
          statements rounds inner ctx inBlock more (next :: done)).Nests [] :=
        (statement_nests hi ctx).bind fun next => ih (next :: done)
      obtain ⟨taken, hmore, htaken⟩ := hgoesOn _ _ _ h
      refine ⟨semicolons ++ taken, ?_, hsemicolons.append htaken⟩
      rw [List.append_assoc, ← hmore]
      exact hs

/-- A block closes the brace that was opened before its statements. -/
theorem block_nests (hi : inner.Nests) (ctx : Context) :
    (block rounds inner ctx).Nests [.rightBrace] := by
  unfold block
  refine (statements_nests hi ctx true rounds []).bind fun body => ?_
  exact Parser.Nests.expectClosing .leftBrace rfl _ body

end

/-! ## Programs -/

/-- By induction on the room for nesting: where there is none, the productions inside fail. -/
theorem grammarWithin_nests (rounds room : Nat) : (grammarWithin rounds room).Nests := by
  induction room with
  | zero => exact ⟨.failNext _, .failNext _, fun _ => .failNext _⟩
  | succ room ih => exact ⟨expression_nests ih, unary_nests ih, fun ctx => block_nests ih ctx⟩

/-- The brackets of what is parsed are well nested. -/
theorem wellNested_of_parse {tokens : List Token} {program : List Stmt}
    (h : parse tokens = .ok program) : WellNested (brackets tokens) := by
  obtain ⟨rest, hread⟩ := parse_eq_ok.mp h
  have hall := statements_left_eq_nil (grammarWithin_takes tokens.length maxNesting)
    ⟨false, false⟩ (Nat.le_of_eq (length_marks tokens)) hread
  obtain ⟨taken, hmarks, nested, hnested, hbrackets⟩ :=
    statements_nests (grammarWithin_nests tokens.length maxNesting) _ _ _ _ _ _ _ hread
  rw [hall, List.append_nil] at hmarks
  rw [List.nil_append, ← hmarks, tokens_of_marks, List.append_nil] at hbrackets
  rw [hbrackets]
  exact hnested

end TwinScript
