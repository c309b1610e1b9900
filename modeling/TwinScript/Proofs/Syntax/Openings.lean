import TwinScript.Proofs.Syntax.Reading

/-!
# What productions open

An expression, the operand of a prefix operator and a block can stand inside each other, and the
grammar reads them through an `Inner`. So what a production makes of its tokens is a function of the
`Inner`, and `Asks` says what such a function may do: give an answer by itself, or open one of these
productions on a last part of its tokens and go on with what is left behind that. What it opens is
smaller than itself, which is why reading ends without a limit too.

* `Asks.bind`: it composes along `do`.
* `outer_asks`: every production opens smaller ones only.
* `parse_error_found`: parsing fails at the first of the tokens that are left, or where none is.
-/

namespace TwinScript

/-! ## Openings -/

/-- The productions that can stand inside each other. -/
inductive Production where
  /-- An expression. -/
  | expression
  /-- The operand of a prefix operator. -/
  | operand
  /-- The statements of a block, behind its opening brace, and the closing one. -/
  | block (ctx : Context)
  deriving DecidableEq

/-- What is read by a production. -/
abbrev Production.Tree : Production → Type
  | expression => Expr
  | operand => Expr
  | block _ => List Stmt

/-- A production that is opened where the tokens `marks` are left. -/
structure Opening where
  /-- The production. -/
  production : Production
  /-- The tokens that are left. -/
  marks : List Mark
  deriving DecidableEq

/-- What is read by an opening. -/
abbrev Opening.Tree (x : Opening) : Type := x.production.Tree

/-- Reads what was opened. -/
def Inner.read (inner : Inner) : (x : Opening) → Except ParseError (x.Tree × List Mark)
  | ⟨.expression, s⟩ => inner.expression s
  | ⟨.operand, s⟩ => inner.operand s
  | ⟨.block ctx, s⟩ => inner.block ctx s

/-- What bounds the openings inside an opening: a block may open an expression before it has read
any token, all else is behind one. -/
def Opening.size (x : Opening) : Nat :=
  match x.production with
  | .block _ => 2 * x.marks.length + 1
  | _ => 2 * x.marks.length

/-- What holds of an opening because of all smaller ones holds of every opening. -/
theorem Opening.size_induction {P : Opening → Prop}
    (smaller : ∀ x, (∀ y : Opening, y.size < x.size → P y) → P x) (x : Opening) : P x :=
  (measure Opening.size).wf.induction x smaller

/-- The grammar around the productions that are one level further in. -/
def Inner.outer (rounds : Nat) (inner : Inner) : Inner where
  expression := TwinScript.expression rounds inner
  operand := unary rounds inner
  block := TwinScript.block rounds inner

/-- A level of room is the grammar around what has one less. -/
theorem grammarWithin_succ (rounds room : Nat) :
    grammarWithin rounds (room + 1) = (grammarWithin rounds room).outer rounds := rfl

/-- Without room, nothing can be opened. -/
theorem read_grammarWithin_zero (rounds : Nat) (x : Opening) :
    (grammarWithin rounds 0).read x = failNext .nestingTooDeep x.marks := by
  match x with
  | ⟨.expression, _⟩ => rfl
  | ⟨.operand, _⟩ => rfl
  | ⟨.block _, _⟩ => rfl

/-! ## Where reading stops -/

/-- Whether the fault can be that the tokens have come to an end. -/
def ParseFault.isOfEnd : ParseFault → Bool
  | unexpectedToken => true
  | expected _ => true
  | nestingTooDeep => true
  | loopControlOutsideLoop _ => false
  | returnOutsideFunction => false

/-- The error was found where the tokens `t` were left: at the first of them, or at the end. -/
structure ParseError.FoundAt (e : ParseError) (t : List Mark) : Prop where
  token?_eq : e.token? = upcoming? t
  isOfEnd : t = [] → e.fault.isOfEnd = true

/-- Of the tokens `s`, a last part is left behind what was read, or where reading failed. -/
def StopsIn {α : Type} (s : List Mark) : Except ParseError (α × List Mark) → Prop
  | .ok (_, t) => t <:+ s
  | .error e => ∃ t, t <:+ s ∧ e.FoundAt t

/-- What stops among the last tokens stops among all of them. -/
theorem StopsIn.mono {α : Type} {s s' : List Mark} {r : Except ParseError (α × List Mark)}
    (h : StopsIn s r) (hs : s <:+ s') : StopsIn s' r := by
  match r, h with
  | .ok _, h => exact h.trans hs
  | .error _, ⟨t, ht, hfound⟩ => exact ⟨t, ht.trans hs, hfound⟩

/-- An error at the next token, which may be missing, stops there. -/
theorem failNext_stopsIn {α : Type} {fault : ParseFault} (h : fault.isOfEnd = true)
    (s : List Mark) : StopsIn s (failNext fault s : Except ParseError (α × List Mark)) :=
  ⟨s, List.suffix_refl s, rfl, fun _ => h⟩

/-- The answer does not come from the limit on nesting. -/
def IsFree {γ : Type} (r : Except ParseError γ) : Prop :=
  ∀ token?, r ≠ .error ⟨.nestingTooDeep, token?⟩

/-- Results are not from the limit. -/
theorem isFree_ok {γ : Type} (a : γ) : IsFree (.ok a) := fun _ h => by cases h

/-- Nor are errors for any other reason. -/
theorem isFree_error {γ : Type} {fault : ParseFault} (h : fault ≠ .nestingTooDeep)
    (token? : Option Token) : IsFree (.error ⟨fault, token?⟩ : Except ParseError γ) := by
  intro other heq
  cases heq
  exact h rfl

/-- What is made of a result does not bring the limit in. -/
theorem IsFree.map {γ δ : Type} {r : Except ParseError γ} (h : IsFree r) (f : γ → δ) :
    IsFree (f <$> r) := by
  intro token? heq
  cases r with
  | ok a => cases heq
  | error e =>
    cases heq
    exact h token? rfl

/-- An answer of the grammar that does without opening anything. -/
structure AnswersIn {α : Type} (s : List Mark) (r : Except ParseError (α × List Mark)) : Prop where
  stopsIn : StopsIn s r
  isFree : IsFree r

/-- A result is an answer, with a last part of the tokens behind it. -/
theorem answersIn_ok {α : Type} {s t : List Mark} (ht : t <:+ s) (a : α) :
    AnswersIn s (.ok (a, t)) := ⟨ht, isFree_ok _⟩

/-- So is an error at the next token, for another reason than the limit. -/
theorem answersIn_failNext {α : Type} {fault : ParseFault} (hend : fault.isOfEnd = true)
    (hfree : fault ≠ .nestingTooDeep) (s : List Mark) :
    AnswersIn s (failNext fault s : Except ParseError (α × List Mark)) :=
  ⟨failNext_stopsIn hend s, isFree_error hfree _⟩

/-- A keyword in the wrong place is found where it stands, though it was read already. -/
theorem answersIn_keyword {α : Type} {fault : ParseFault} (h : fault ≠ .nestingTooDeep)
    (token : Token) (joined : Bool) (behind : List Mark) :
    AnswersIn (⟨token, joined⟩ :: behind)
      (throw ⟨fault, some token⟩ : Except ParseError (α × List Mark)) where
  stopsIn := ⟨_, List.suffix_refl _, rfl, fun h => absurd h (List.cons_ne_nil _ _)⟩
  isFree := isFree_error h _

/-! ## What a production asks for -/

section

variable {α β : Type}

/-- Of the tokens `s`, the function makes an answer by itself, or it opens a production on a last
part of them and goes on behind that. All that it opens is smaller than `bound`. -/
inductive Asks (bound : Nat) : List Mark → (Inner → Except ParseError (α × List Mark)) → Prop
  | answer {s : List Mark} {r : Except ParseError (α × List Mark)} (h : AnswersIn s r) :
      Asks bound s fun _ => r
  | ask {s : List Mark} {x : Opening}
      {next : x.Tree × List Mark → Inner → Except ParseError (α × List Mark)}
      (hx : x.marks <:+ s) (hsize : x.size < bound)
      (hnext : ∀ a t, t <:+ x.marks → Asks bound t (next (a, t))) :
      Asks bound s fun inner => inner.read x >>= fun r => next r inner

/-- Among more tokens, and with a larger bound, the function asks for the same. -/
theorem Asks.mono {bound bound' : Nat} {s s' : List Mark}
    {f : Inner → Except ParseError (α × List Mark)} (h : Asks bound s f) (hs : s <:+ s')
    (hbound : bound ≤ bound') : Asks bound' s' f := by
  induction h generalizing s' with
  | answer hr => exact .answer ⟨hr.stopsIn.mono hs, hr.isFree⟩
  | ask hx hsize _ ih =>
    exact .ask (hx.trans hs) (Nat.lt_of_lt_of_le hsize hbound) fun a t ht =>
      ih a t ht (List.suffix_refl t)

/-- What goes on behind an answer opens smaller productions too. -/
theorem Asks.bind {bound : Nat} {s : List Mark} {f : Inner → Except ParseError (α × List Mark)}
    {g : α × List Mark → Inner → Except ParseError (β × List Mark)} (hf : Asks bound s f)
    (hg : ∀ a t, t <:+ s → Asks bound t (g (a, t))) :
    Asks bound s fun inner => f inner >>= fun r => g r inner := by
  -- what `f` asks for is asked for first, and `g` goes on where `f` has its answer
  induction hf with
  | @answer s r hr =>
    match r, hr with
    | .ok (a, t), ht => exact (hg a t ht.stopsIn).mono ht.stopsIn (Nat.le_refl _)
    | .error e, he =>
      refine .answer ⟨he.stopsIn, fun token? heq => he.isFree token? ?_⟩
      cases heq
      rfl
  | @ask s x next hx hsize _ ih =>
    simp only [bind_assoc]
    exact .ask hx hsize fun a t ht => ih a t ht fun b u hu => hg b u ((hu.trans ht).trans hx)

/-- On any tokens, the parser opens productions of less than twice their number and `k`. -/
def Parser.Opens (k : Nat) (p : Inner → Parser α) : Prop :=
  ∀ s, Asks (2 * s.length + k) s fun inner => p inner s

end

namespace Parser

variable {α β : Type} {k l : Nat}

/-- What opens less than a bound opens less than a larger one. -/
theorem Opens.mono {p : Inner → Parser α} (h : Opens k p) (hk : k ≤ l) : Opens l p := fun s =>
  (h s).mono (List.suffix_refl s) (Nat.add_le_add_left hk _)

/-- A result opens nothing. -/
theorem Opens.pure (a : α) : Opens k fun _ => (Pure.pure a : Parser α) := fun s =>
  .answer (answersIn_ok (List.suffix_refl s) a)

/-- Parsers one behind the other open what each of them does. -/
theorem Opens.bind {p : Inner → Parser α} {q : Inner → α → Parser β} (hp : Opens k p)
    (hq : ∀ a, Opens k fun inner => q inner a) : Opens k fun inner => p inner >>= q inner :=
  fun s => (hp s).bind fun a t ht =>
    (hq a t).mono (List.suffix_refl t) (by have := ht.length_le; omega)

/-- What is made of the result opens nothing. -/
theorem Opens.map {p : Inner → Parser α} {f : α → β} (hp : Opens k p) :
    Opens k fun inner => f <$> p inner := by
  simp only [map_eq_bind]
  exact hp.bind fun a => .pure (f a)

/-- Behind a token there is room for two more. -/
theorem Opens.behind {p : Inner → Parser α} (h : Opens (k + 2) p) (m : Mark) (t : List Mark) :
    Asks (2 * (m :: t).length + k) (m :: t) fun inner => p inner t :=
  (h t).mono (List.suffix_cons m t) (by rw [List.length_cons]; omega)

/-- Behind a token that is expected, a parser may open two more: it has one token less. -/
theorem Opens.expectBind {s : Symbol} {what : String} {q : Inner → Unit → Parser α}
    (h : Opens (k + 2) fun inner => q inner ()) :
    Opens k fun inner => expect s what >>= q inner := by
  intro rest
  simp only [bind_apply]
  unfold expect
  by_cases hnext : nextIs s rest = true
  · obtain ⟨m, behind, rfl, -⟩ := nextIs_eq_true.mp hnext
    simp only [if_pos hnext]
    exact h.behind m behind
  · simp only [if_neg hnext]
    exact .answer (answersIn_failNext rfl (by simp) rest)

/-- The same goes for a token that may come next, if it does. -/
theorem Opens.acceptBind {s : Symbol} {p q : Inner → Parser α} (hyes : Opens (k + 2) p)
    (hno : Opens k q) :
    Opens k fun inner => accept s >>= fun found => if found = true then p inner else q inner := by
  intro rest
  simp only [bind_apply]
  unfold accept
  by_cases hnext : nextIs s rest = true
  · obtain ⟨m, behind, rfl, -⟩ := nextIs_eq_true.mp hnext
    simp only [if_pos hnext]
    exact hyes.behind m behind
  · simp only [if_neg hnext]
    exact hno rest

/-- And for a token that is wanted, whichever it is. -/
theorem Opens.acceptIfBind {wanted : Mark → Bool} {next : Inner → Option Token → Parser α}
    (hnone : Opens k fun inner => next inner none)
    (hsome : ∀ t, Opens (k + 2) fun inner => next inner (some t)) :
    Opens k fun inner => acceptIf wanted >>= next inner := by
  intro rest
  simp only [bind_apply]
  cases rest with
  | nil => exact hnone []
  | cons m behind =>
    unfold acceptIf
    by_cases hm : wanted m = true
    · simp only [hm, if_true]
      exact (hsome m.token).behind m behind
    · simp only [hm]
      exact hnone (m :: behind)

end Parser

/-- To open a production is to ask for it. -/
theorem Inner.read_asks {bound : Nat} (x : Opening) (hsize : x.size < bound) :
    Asks bound x.marks fun inner => inner.read x := by
  have hask : Asks bound x.marks fun inner => inner.read x >>= fun r => Except.ok r :=
    .ask (List.suffix_refl _) hsize fun a t _ => .answer (answersIn_ok (List.suffix_refl t) a)
  have heq (inner : Inner) : (inner.read x >>= fun r => Except.ok r) = inner.read x :=
    bind_pure _
  simpa only [heq] using hask

/-- An expression where the tokens begin is no larger than they are. -/
theorem Inner.expression_opens : Parser.Opens 1 Inner.expression := fun s =>
  read_asks ⟨.expression, s⟩ (Nat.lt_succ_self _)

/-- Neither is an operand. -/
theorem Inner.operand_opens : Parser.Opens 1 Inner.operand := fun s =>
  read_asks ⟨.operand, s⟩ (Nat.lt_succ_self _)

/-- A block counts one more, since it may open an expression there. -/
theorem Inner.block_opens (ctx : Context) : Parser.Opens 2 fun inner => inner.block ctx := fun s =>
  read_asks ⟨.block ctx, s⟩ (Nat.lt_succ_self _)

/-! ## Lists -/

section

open TwinScript.Parser

variable {k : Nat} (rounds : Nat)

/-- Each further item is behind a comma. -/
theorem afterCommas_opens {α : Type} {item : Inner → Parser α} (h : Opens (k + 2) item) (more : Nat)
    (items : List α) : Opens k fun inner => afterCommas (item inner) more items := by
  induction more generalizing items with
  | zero => exact .pure _
  | succ more ih =>
    unfold afterCommas
    exact .acceptBind (h.bind fun next => (ih _).mono (Nat.le_add_right _ _)) (.pure _)

/-- The first item may be opened where the list begins. -/
theorem commaSeparated_opens {α : Type} {item : Inner → Parser α} (h : Opens k item)
    (what : String) : Opens k fun inner => commaSeparated rounds (item inner) what := by
  unfold commaSeparated
  refine .acceptBind (.pure _) (h.bind fun first => ?_)
  refine (afterCommas_opens (h.mono (Nat.le_add_right _ _)) _ _).bind fun items => ?_
  exact .expectBind (.pure items)

/-! ## Expressions -/

/-- The expression in parentheses comes behind the opening one. -/
theorem parenthesized_opens : Opens 1 parenthesized := by
  unfold parenthesized
  exact Inner.expression_opens.bind fun e => .expectBind (.pure e)

/-- So a primary expression opens smaller ones than itself. -/
theorem primary_opens : Opens 0 primary := by
  intro s
  unfold primary
  match s with
  | [] => exact .answer (answersIn_failNext rfl (by simp) _)
  | ⟨token, joined⟩ :: behind =>
    dsimp only
    split
    · exact .answer (answersIn_ok (List.suffix_cons _ _) _)
    · exact .answer (answersIn_ok (List.suffix_cons _ _) _)
    · exact (parenthesized_opens.mono (Nat.le_succ 1)).behind _ _
    · exact .answer (answersIn_failNext rfl (by simp) _)

/-- Arguments come behind a parenthesis. -/
theorem callsOn_opens (more : Nat) (callee : Expr) :
    Opens 0 fun inner => callsOn rounds inner more callee := by
  induction more generalizing callee with
  | zero => exact .pure callee
  | succ more ih =>
    unfold callsOn
    refine .acceptIfBind (.pure callee) fun _ => ?_
    refine (commaSeparated_opens rounds (Inner.expression_opens.mono (Nat.le_succ 1)) _).bind ?_
    exact fun args => (ih _).mono (Nat.zero_le _)

/-- Calls open what their callee and their arguments do. -/
theorem call_opens : Opens 0 (call rounds) := by
  unfold call
  exact primary_opens.bind fun callee => callsOn_opens rounds rounds callee

/-- An operand comes behind its operator. -/
theorem unary_opens : Opens 0 (unary rounds) := by
  unfold unary
  refine .acceptIfBind (call_opens rounds) fun op => ?_
  exact (Inner.operand_opens.mono (Nat.le_succ 1)).bind fun operand => .pure _

/-- A right operand comes behind an operator. -/
theorem operatorsOn_opens {operand : Inner → Parser Expr} (h : Opens 0 operand)
    (operators : List Symbol) (more : Nat) (left : Expr) :
    Opens 0 fun inner => operatorsOn operators (operand inner) more left := by
  induction more generalizing left with
  | zero => exact .pure left
  | succ more ih =>
    unfold operatorsOn
    refine .acceptIfBind (.pure left) fun op => ?_
    exact (h.mono (Nat.zero_le _)).bind fun right => (ih _).mono (Nat.zero_le _)

/-- No level opens more than its operands do. -/
theorem binary_opens {operand : Inner → Parser Expr} (h : Opens 0 operand)
    (levels : List (List Symbol)) : Opens 0 fun inner => binary rounds (operand inner) levels := by
  induction levels with
  | nil => exact h
  | cons operators tighter ih =>
    unfold binary
    exact ih.bind fun left => operatorsOn_opens ih operators rounds left

/-- So an expression opens smaller productions than itself. -/
theorem expression_opens : Opens 0 (expression rounds) :=
  binary_opens rounds (unary_opens rounds) operatorLevels

/-! ## Statements -/

/-- A body is behind its brace. -/
theorem body_opens (ctx : Context) : Opens 0 fun inner => body inner ctx := by
  unfold body
  exact .expectBind ((Inner.block_opens ctx).bind fun statements => .pure _)

/-- A condition may be opened at once, and the body is behind it. -/
theorem conditional_opens (ctx : Context) : Opens 1 fun inner => conditional inner ctx := by
  unfold conditional
  refine Inner.expression_opens.bind fun condition => ?_
  exact ((body_opens ctx).mono (Nat.zero_le _)).bind fun body => .pure _

/-- So may the condition of a loop. -/
theorem loopGuard_opens : Opens 1 loopGuard := by
  intro s
  unfold loopGuard
  split
  · exact .answer (answersIn_ok (List.suffix_refl s) _)
  · exact Inner.expression_opens.map s

/-- A loop opens its condition and its body. -/
theorem loop_opens (ctx : Context) (pos : Position) : Opens 1 fun inner => loop inner ctx pos := by
  simp only [loop_eq]
  refine loopGuard_opens.bind fun condition => ?_
  exact ((body_opens _).mono (Nat.zero_le _)).bind fun body => .pure _

/-- A name opens nothing. -/
theorem identifier_opens : Opens k fun _ => identifier := by
  intro s
  have hanswer : AnswersIn s (identifier s) := by
    unfold identifier
    split
    · exact answersIn_ok (List.suffix_cons _ _) _
    · exact answersIn_failNext rfl (by simp) s
  exact .answer hanswer

/-- Of a declaration, the block alone is opened, behind the name and the parameters. -/
theorem function_opens : Opens 0 (function rounds) := by
  unfold function
  refine identifier_opens.bind fun name => .expectBind ?_
  refine (commaSeparated_opens rounds identifier_opens _).bind fun params => .expectBind ?_
  exact ((Inner.block_opens _).mono (by decide)).bind fun body => .pure _

/-- An expression by itself is opened at once. -/
theorem bareExpression_opens : Opens 1 bareExpression := by
  unfold bareExpression
  exact Inner.expression_opens.bind fun e => .pure _

/-- The value of an assignment is behind its sign; the name and the sign have been taken. -/
theorem assignment_opens (name : String) : Opens 1 fun inner => assignment inner name := by
  unfold assignment
  exact Inner.expression_opens.bind fun value => .pure _

/-- A block by itself is opened behind its brace, which has been taken. -/
theorem bareBlock_opens (ctx : Context) : Opens 2 fun inner => bareBlock inner ctx := by
  unfold bareBlock
  exact (Inner.block_opens ctx).bind fun statements => .pure _

/-- A value is opened at once. -/
theorem returnedValue_opens : Opens 1 returnedValue := by
  intro s
  unfold returnedValue
  split
  · exact Inner.expression_opens.map s
  · exact .answer (answersIn_ok (List.suffix_refl s) _)

section

variable {bound : Nat} {token : Token} {joined : Bool} {behind : List Mark}

/-- Behind `break` and `continue` nothing is opened. -/
theorem loopControl_asks (ctx : Context) (k : Keyword) (statement : Stmt) :
    Asks bound (⟨token, joined⟩ :: behind) fun _ => loopControl ctx token k statement behind := by
  unfold loopControl
  split
  · exact .answer (answersIn_ok (List.suffix_cons _ _) _)
  · exact .answer (answersIn_keyword (by simp) token joined behind)

/-- Behind `return` there is a value at most. -/
theorem returning_asks (ctx : Context) :
    Asks (2 * (⟨token, joined⟩ :: behind).length + 1) (⟨token, joined⟩ :: behind) fun inner =>
      returning inner ctx token behind := by
  simp only [returning_eq]
  split
  · exact (returnedValue_opens.map.mono (by decide)).behind _ _
  · exact .answer (answersIn_keyword (by simp) token joined behind)

end

/-- A statement opens what its kind does; the kinds that begin with a keyword have taken that. -/
theorem statement_opens (ctx : Context) : Opens 1 fun inner => statement rounds inner ctx := by
  intro s
  unfold statement
  match s with
  | [] => exact bareExpression_opens []
  | ⟨token, joined⟩ :: behind =>
    dsimp only
    split
    · exact ((conditional_opens ctx).mono (by decide)).behind _ _
    · exact ((loop_opens ctx _).mono (by decide)).behind _ _
    · exact loopControl_asks ctx _ _
    · exact loopControl_asks ctx _ _
    · exact ((function_opens rounds).mono (by decide)).behind _ _
    · exact returning_asks ctx
    · exact ((bareBlock_opens ctx).mono (by decide)).behind _ _
    · split
      · next name _ hequal =>
        obtain ⟨m, rest, rfl, -⟩ := nextIs_eq_true.mp hequal
        refine ((assignment_opens name).mono (Nat.le_succ 1) rest).mono ?_ ?_
        · exact (List.suffix_cons m rest).trans (List.suffix_cons _ _)
        · simp only [List.length_cons]
          omega
      · exact bareExpression_opens _
    · exact bareExpression_opens _

/-- Without semicolons, a last part of the tokens is left. -/
theorem dropSemicolons_suffix (s : List Mark) : dropSemicolons s <:+ s :=
  List.dropWhile_suffix _

/-- Statements open smaller ones one behind the other. -/
theorem statements_opens (ctx : Context) (inBlock : Bool) (more : Nat) (done : List Stmt) :
    Opens 1 fun inner => statements rounds inner ctx inBlock more done := by
  induction more generalizing done with
  | zero => exact .pure _
  | succ more ih =>
    have hgoesOn : Opens 1 fun inner => statement rounds inner ctx >>= fun next =>
        statements rounds inner ctx inBlock more (next :: done) :=
      (statement_opens rounds ctx).bind fun next => ih _
    intro s
    have hdrop := dropSemicolons_suffix s
    unfold statements
    simp only [bind_apply, modify_apply, get_apply]
    split
    · exact .answer (answersIn_ok hdrop _)
    · have hsize : 2 * (dropSemicolons s).length + 1 ≤ 2 * s.length + 1 := by
        have := hdrop.length_le
        omega
      simpa only [bind_apply] using (hgoesOn (dropSemicolons s)).mono hdrop hsize

/-- So does a block. -/
theorem block_opens (ctx : Context) : Opens 1 fun inner => block rounds inner ctx := by
  unfold block
  exact (statements_opens rounds ctx true rounds []).bind fun body => .expectBind (.pure body)

end

/-! ## The whole grammar -/

/-- **Every production opens smaller ones only.** -/
theorem outer_asks (rounds : Nat) (x : Opening) :
    Asks x.size x.marks fun inner => (inner.outer rounds).read x := by
  match x with
  | ⟨.expression, s⟩ => exact expression_opens rounds s
  | ⟨.operand, s⟩ => exact unary_opens rounds s
  | ⟨.block ctx, s⟩ => exact block_opens rounds ctx s

/-- So does a program. -/
theorem program_opens (rounds : Nat) : Parser.Opens 1 (program rounds) :=
  statements_opens rounds _ _ _ _

/-- Where the inner productions stop inside their tokens, so does what asks for them. -/
theorem Asks.stopsIn {α : Type} {bound : Nat} {s : List Mark}
    {f : Inner → Except ParseError (α × List Mark)} (h : Asks bound s f) {inner : Inner}
    (hi : ∀ x, StopsIn x.marks (inner.read x)) : StopsIn s (f inner) := by
  induction h with
  | answer hr => exact hr.stopsIn
  | @ask s x next hx _ _ ih =>
    have hread := hi x
    dsimp only
    match inner.read x, hread with
    | .ok (a, t), ht => exact (ih a t ht).mono (ht.trans hx)
    | .error e, ⟨t, ht, hfound⟩ => exact ⟨t, ht.trans hx, hfound⟩

/-- Whatever room there is, a production stops among its tokens. -/
theorem grammarWithin_stopsIn (rounds room : Nat) (x : Opening) :
    StopsIn x.marks ((grammarWithin rounds room).read x) := by
  induction room generalizing x with
  | zero =>
    rw [read_grammarWithin_zero]
    exact failNext_stopsIn rfl x.marks
  | succ room ih =>
    rw [grammarWithin_succ]
    exact (outer_asks rounds x).stopsIn ih

/-- **Where parsing fails.** An error is found where some last part of the tokens is left: it names
the first of these tokens, or none if the tokens have come to an end. -/
theorem parse_error_found {tokens : List Token} {e : ParseError} (h : parse tokens = .error e) :
    ∃ t, t <:+ marks tokens ∧ e.FoundAt t := by
  have hstops := (program_opens tokens.length (marks tokens)).stopsIn
    (grammarWithin_stopsIn tokens.length maxNesting)
  rwa [parse_eq_error.mp h] at hstops

end TwinScript
