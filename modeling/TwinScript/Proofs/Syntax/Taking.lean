import TwinScript.Proofs.Syntax.Leaves
import TwinScript.Proofs.Syntax.Programs
import Mathlib.Data.List.TakeWhile

/-!
# What productions take

No production loses, invents or reorders tokens: it takes some off the front, and the leaves of what
it makes of them are these tokens.

* `Parser.Takes`: what a production takes off the tokens, and what it makes of them. What was taken
  before, in the same production, is part of the statement, so it composes along `do`.
* `Inner.Takes`: the same of the productions that are nested inside; each production is shown to
  take what it reads if these do, and how deep they nest is one induction in the end.
* `parse_keeps_tokens`: the leaves of what is parsed are the tokens, and no token is left over.
-/

namespace TwinScript

/-! ## What a production takes -/

namespace Parser

variable {α β : Type} {before : List Mark}

/-- Where the parser succeeds, it has taken tokens off the front, and its result is related to these
and the tokens that were taken before. -/
def Takes (p : Parser α) (before : List Mark) (R : α → List Mark → Prop) : Prop :=
  ∀ s a t, p s = .ok (a, t) → ∃ taken, s = taken ++ t ∧ R a (before ++ taken)

variable {R : α → List Mark → Prop} {S : β → List Mark → Prop}

/-- A result without tokens is one of those that were taken before. -/
theorem Takes.pure {a : α} (h : R a before) : (Pure.pure a : Parser α).Takes before R := by
  intro s b t hb
  cases hb
  exact ⟨[], rfl, by rwa [List.append_nil]⟩

/-- What fails has nothing to show. -/
theorem Takes.throw (e : ParseError) : (MonadExcept.throw e : Parser α).Takes before R := by
  intro s a t h
  cases h

/-- Neither has what fails at the next token. -/
theorem Takes.failNext (fault : ParseFault) :
    (TwinScript.failNext fault : Parser α).Takes before R := by
  intro s a t h
  cases h

/-- The second part has the tokens of the first one before it. -/
theorem Takes.bind {p : Parser α} {q : α → Parser β} (hp : p.Takes before R)
    (hq : ∀ a taken, R a taken → (q a).Takes taken S) : (p >>= q).Takes before S := by
  intro s b u h
  obtain ⟨a, t, ha, hb⟩ := bind_eq_ok.mp h
  obtain ⟨own, rfl, hown⟩ := hp s a t ha
  obtain ⟨more, rfl, hmore⟩ := hq a _ hown t b u hb
  exact ⟨own ++ more, (List.append_assoc _ _ _).symm, by rwa [← List.append_assoc]⟩

/-- A first part that is related to its own tokens may stand behind others. -/
theorem Takes.bindOwn {p : Parser α} {q : α → Parser β} (hp : p.Takes [] R)
    (hq : ∀ a own, R a own → (q a).Takes (before ++ own) S) : (p >>= q).Takes before S := by
  have hbehind : p.Takes before fun a taken => ∃ own, taken = before ++ own ∧ R a own := by
    intro s a t ha
    obtain ⟨own, hs, hown⟩ := hp s a t ha
    exact ⟨own, hs, own, rfl, hown⟩
  refine hbehind.bind ?_
  rintro a _ ⟨own, rfl, hown⟩
  exact hq a own hown

/-- One token was taken, and then the rest. -/
theorem Takes.of_cons {m : Mark} {p : Parser α} (hp : p.Takes (before ++ [m]) R)
    {s t : List Mark} {a : α} (h : p s = .ok (a, t)) :
    ∃ taken, m :: s = taken ++ t ∧ R a (before ++ taken) := by
  obtain ⟨more, rfl, hmore⟩ := hp s a t h
  exact ⟨m :: more, rfl, by rwa [List.append_cons]⟩

/-- What follows a symbol that has to come next. -/
theorem Takes.expectBind {s : Symbol} {what : String} {q : Unit → Parser α}
    (h : ∀ m : Mark, m.token.kind = .symbol s → (q ()).Takes (before ++ [m]) R) :
    (expect s what >>= q).Takes before R := by
  intro rest a t ha
  rw [bind_apply] at ha
  unfold expect at ha
  by_cases hnext : nextIs s rest = true
  · obtain ⟨m, behind, rfl, hm⟩ := nextIs_eq_true.mp hnext
    rw [if_pos hnext] at ha
    exact (h m hm).of_cons ha
  · rw [if_neg hnext] at ha
    cases ha

/-- What follows if a symbol comes next, and what if it does not. -/
theorem Takes.acceptBind {s : Symbol} {p q : Parser α}
    (hyes : ∀ m : Mark, m.token.kind = .symbol s → p.Takes (before ++ [m]) R)
    (hno : q.Takes before R) :
    (accept s >>= fun found => if found = true then p else q).Takes before R := by
  intro rest a t ha
  rw [bind_apply] at ha
  unfold accept at ha
  by_cases hnext : nextIs s rest = true
  · obtain ⟨m, behind, rfl, hm⟩ := nextIs_eq_true.mp hnext
    rw [if_pos hnext] at ha
    exact (hyes m hm).of_cons ha
  · rw [if_neg hnext] at ha
    exact hno rest a t ha

/-- What follows if a token of some sort comes next, and what if none does. -/
theorem Takes.acceptIfBind {wanted : Mark → Bool} {next : Option Token → Parser α}
    (hnone : (next none).Takes before R)
    (hsome : ∀ m, wanted m = true → (next (some m.token)).Takes (before ++ [m]) R) :
    (acceptIf wanted >>= next).Takes before R := by
  intro rest a t ha
  rw [bind_apply] at ha
  cases rest with
  | nil => exact hnone [] a t ha
  | cons m behind =>
    unfold acceptIf at ha
    by_cases hm : wanted m = true
    · simp only [hm, if_true] at ha
      exact (hsome m hm).of_cons ha
    · simp only [hm] at ha
      exact hnone (m :: behind) a t ha

end Parser

/-! ## Lists -/

section

variable {α : Type} {leaves : α → List Leaf} {good : α → Prop} {before : List Mark}

/-- The items were read from the tokens, with commas between them. -/
abbrev ItemsReadFrom (leaves : α → List Leaf) (good : α → Prop) : List α → List Mark → Prop :=
  ReadFrom (fun items => Leaf.withCommas (items.map leaves)) fun items => ∀ a ∈ items, good a

/-- Each comma is a token that is no leaf, and each item has its own behind it. -/
theorem afterCommas_takes {item : Parser α} (hitem : item.Takes [] (ReadFrom leaves good))
    (more : Nat) {items : List α} (hsome : items ≠ [])
    (hitems : ItemsReadFrom leaves good items.reverse before) :
    (afterCommas item more items).Takes before (ItemsReadFrom leaves good) := by
  induction more generalizing items before with
  | zero => exact .pure hitems
  | succ more ih =>
    unfold afterCommas
    refine .acceptBind (fun m hm => hitem.bindOwn fun a own ha => ?_) (.pure hitems)
    have hcomma := Leaf.AllOf.unplaced hm rfl
    refine ih (List.cons_ne_nil a items) ⟨?_, ?_⟩
    · have hmap : items.reverse.map leaves ≠ [] := by simpa using hsome
      rw [List.reverse_cons, List.map_append, List.map_singleton, Leaf.withCommas_concat hmap]
      exact (hitems.leaves.append hcomma).append ha.leaves
    · intro b hb
      rw [List.reverse_cons, List.mem_append, List.mem_singleton] at hb
      rcases hb with hb | rfl
      · exact hitems.good b hb
      · exact ha.good

/-- A list in parentheses, the opening one of which was taken before. -/
theorem commaSeparated_takes {item : Parser α} (hitem : item.Takes [] (ReadFrom leaves good))
    (rounds : Nat) (what : String) :
    (commaSeparated rounds item what).Takes [] (ItemsReadFrom leaves good) := by
  unfold commaSeparated
  refine .acceptBind (fun m hm => .pure ⟨.dropped (by simp [hm, Token.Kind.isKept]), ?_⟩)
    (hitem.bindOwn fun first own hfirst => ?_)
  · exact fun a ha => absurd ha List.not_mem_nil
  · have hone : ItemsReadFrom leaves good [first].reverse own := by
      refine ⟨?_, ?_⟩
      · simpa [Leaf.withCommas] using hfirst.leaves
      · simpa using hfirst.good
    refine (afterCommas_takes hitem rounds (List.cons_ne_nil first []) hone).bind
      fun items taken hitems => .expectBind fun m hm => .pure ?_
    exact hitems.drop_right hm rfl

end

/-! ## Expressions -/

/-- The inner productions make trees of the tokens that they take. -/
structure Inner.Takes (inner : Inner) : Prop where
  expression : inner.expression.Takes [] Expr.ReadFrom
  operand : inner.operand.Takes [] Expr.ReadFrom
  block : ∀ ctx, (inner.block ctx).Takes [] Stmt.ClosedReadFrom

section

variable {rounds : Nat} {inner : Inner}

/-- An operator stands between the leaves of its operands, at its own position. -/
theorem operatorsOn_takes {operators : List Symbol}
    (hkept : ∀ s ∈ operators, (Token.Kind.symbol s).isKept = true) {operand : Parser Expr}
    (hoperand : operand.Takes [] Expr.ReadFrom) (more : Nat) {left : Expr} {before : List Mark}
    (hleft : left.ReadFrom before) :
    (operatorsOn operators operand more left).Takes before Expr.ReadFrom := by
  induction more generalizing left before with
  | zero => exact .pure hleft
  | succ more ih =>
    unfold operatorsOn
    refine .acceptIfBind (.pure hleft) fun m hm => hoperand.bindOwn fun right own hright => ?_
    obtain ⟨s, hs, hkind⟩ := Mark.continuesWith_eq_true hm
    have hop : Leaf.AllOf [.placed m.token.kind m.token.pos] [m] :=
      .placed rfl (by rw [hkind]; exact hkept s hs)
    exact ih ⟨(hleft.leaves.append hop).append hright.leaves, hleft.good, hright.good⟩

/-- Level by level, operands are what the tighter levels have taken. -/
theorem binary_takes {levels : List (List Symbol)}
    (hkept : ∀ operators ∈ levels, ∀ s ∈ operators, (Token.Kind.symbol s).isKept = true)
    {operand : Parser Expr} (hoperand : operand.Takes [] Expr.ReadFrom) :
    (binary rounds operand levels).Takes [] Expr.ReadFrom := by
  induction levels with
  | nil => exact hoperand
  | cons operators tighter ih =>
    rw [List.forall_mem_cons] at hkept
    have htighter := ih hkept.2
    exact htighter.bind fun left taken hleft =>
      operatorsOn_takes hkept.1 htighter rounds hleft

/-- The parentheses are no leaves, and what is between them is. -/
theorem parenthesized_takes (hi : inner.Takes) {m : Mark}
    (hm : m.token.kind = .symbol .leftParen) :
    (parenthesized inner).Takes [m] Expr.ReadFrom := by
  unfold parenthesized
  refine hi.expression.bindOwn fun e own he => .expectBind fun m' hm' => .pure ?_
  exact (he.drop_left hm rfl).drop_right hm' rfl

/-- A literal or a name is its token. -/
theorem primary_takes (hi : inner.Takes) : (primary inner).Takes [] Expr.ReadFrom := by
  intro s e t h
  cases s with
  | nil => cases h
  | cons m behind =>
    obtain ⟨token, joined⟩ := m
    unfold primary at h
    dsimp only at h
    split at h
    · next value hvalue =>
      cases h
      have hkind := Literal.ofKind?_eq_some.mp hvalue
      have hleaf : Leaf.AllOf [⟨value.kind?, some token.pos⟩] [⟨token, joined⟩] := by
        rw [hkind]
        exact .placed rfl (Literal.isKept_kind hkind)
      exact ⟨[_], rfl, hleaf, trivial⟩
    · next name _ hkind =>
      cases h
      exact ⟨[_], rfl, .placed hkind rfl, trivial⟩
    · next hkind => exact @Parser.Takes.of_cons _ [] _ _ _ (parenthesized_takes hi hkind) _ _ _ h
    · cases h

/-- A call has its callee first and then its arguments, between parentheses that are no leaves. -/
theorem callsOn_takes (hi : inner.Takes) (more : Nat) {callee : Expr} {before : List Mark}
    (hcallee : callee.ReadFrom before) :
    (callsOn rounds inner more callee).Takes before Expr.ReadFrom := by
  induction more generalizing callee before with
  | zero => exact .pure hcallee
  | succ more ih =>
    unfold callsOn
    refine .acceptIfBind (.pure hcallee) fun m hm => ?_
    obtain ⟨s, hs, hkind⟩ := Mark.continuesWith_eq_true hm
    obtain rfl := List.mem_singleton.mp hs
    refine (commaSeparated_takes hi.expression rounds _).bindOwn fun args own hargs => ih ?_
    have hopened := hcallee.drop_right hkind rfl
    refine ⟨?_, rfl, hcallee.good, (Expr.allCallsPlaced_iff args).mpr hargs.good⟩
    rw [Expr.leaves, Expr.eachLeaves_eq_map]
    exact hopened.leaves.append hargs.leaves

/-- So a primary expression and the calls behind it take what they are made of. -/
theorem call_takes (hi : inner.Takes) : (call rounds inner).Takes [] Expr.ReadFrom :=
  (primary_takes hi).bind fun _ _ hcallee => callsOn_takes hi rounds hcallee

/-- A prefix operator stands before its operand. -/
theorem unary_takes (hi : inner.Takes) : (unary rounds inner).Takes [] Expr.ReadFrom := by
  unfold unary
  refine .acceptIfBind (call_takes hi) fun m hm => ?_
  refine hi.operand.bindOwn fun operand own hoperand => .pure ⟨?_, hoperand.good⟩
  obtain ⟨s, hs, hkind⟩ := Mark.isOneOf_eq_true hm
  have hkept : ∀ s ∈ [Symbol.bang, .minus], (Token.Kind.symbol s).isKept = true := by decide
  have hop : Leaf.AllOf [.placed m.token.kind m.token.pos] [m] :=
    .placed rfl (by rw [hkind]; exact hkept s hs)
  exact hop.append hoperand.leaves

/-- Expressions take the tokens that they are made of. -/
theorem expression_takes (hi : inner.Takes) : (expression rounds inner).Takes [] Expr.ReadFrom := by
  have hkept : ∀ operators ∈ operatorLevels, ∀ s ∈ operators,
      (Token.Kind.symbol s).isKept = true := by decide
  exact binary_takes hkept (unary_takes hi)

/-! ## Statements -/

/-- A body takes a block, whose braces are no leaves. -/
theorem body_takes (hi : inner.Takes) (ctx : Context) :
    (body inner ctx).Takes [] Stmt.ReadFrom := by
  unfold body
  refine .expectBind fun m hm => (hi.block ctx).bindOwn fun statements own hbody => .pure ?_
  exact ⟨(Leaf.AllOf.unplaced hm rfl).append hbody.leaves, hbody.good⟩

/-- So does a block by itself, behind its brace. -/
theorem bareBlock_takes (hi : inner.Takes) (ctx : Context) {m : Mark}
    (hm : m.token.kind = .symbol .leftBrace) :
    (bareBlock inner ctx).Takes [m] Stmt.ReadFrom := by
  unfold bareBlock
  refine (hi.block ctx).bindOwn fun statements own hbody => .pure ?_
  exact ⟨(Leaf.AllOf.unplaced hm rfl).append hbody.leaves, hbody.good⟩

/-- A conditional has the keyword, the condition and the body. -/
theorem conditional_takes (hi : inner.Takes) (ctx : Context) {m : Mark}
    (hm : m.token.kind = .keyword .ifWord) :
    (conditional inner ctx).Takes [m] Stmt.ReadFrom := by
  unfold conditional
  refine hi.expression.bindOwn fun condition own hcondition => ?_
  refine (body_takes hi ctx).bindOwn fun body own' hbody => .pure ?_
  have hkeyword := Leaf.AllOf.unplaced hm rfl
  exact ⟨(hkeyword.append hcondition.leaves).append hbody.leaves, hcondition.good, hbody.good⟩

/-- The condition or the value was read from the tokens, if there is one. -/
abbrev Expr.ReadFrom? : Option Expr → List Mark → Prop :=
  TwinScript.ReadFrom Expr.leaves? fun e? => ∀ e ∈ e?, e.CallsPlaced

/-- A condition or a value that is there is read as an expression. -/
theorem Parser.Takes.some {p : Parser Expr} (hp : p.Takes [] Expr.ReadFrom) :
    (Option.some <$> p).Takes [] Expr.ReadFrom? := by
  rw [map_eq_bind]
  refine hp.bind fun e taken he => .pure ⟨he.leaves, ?_⟩
  simpa using he.good

/-- A condition that is missing takes nothing. -/
theorem Expr.readFrom?_none : Expr.ReadFrom? none [] :=
  ⟨.nil, fun e he => by cases he⟩

/-- The condition of a loop is there or missing. -/
theorem loopGuard_takes (hi : inner.Takes) : (loopGuard inner).Takes [] Expr.ReadFrom? := by
  intro s condition t h
  unfold loopGuard at h
  split at h
  · cases h
    exact ⟨[], rfl, Expr.readFrom?_none⟩
  · exact hi.expression.some s condition t h

/-- A loop has the keyword, at its own position, the condition if there is one, and the body. -/
theorem loop_takes (hi : inner.Takes) (ctx : Context) {m : Mark}
    (hm : m.token.kind = .keyword .forWord) :
    (loop inner ctx m.token.pos).Takes [m] Stmt.ReadFrom := by
  rw [loop_eq]
  refine (loopGuard_takes hi).bindOwn fun condition own hcondition => ?_
  refine (body_takes hi _).bindOwn fun body own' hbody => .pure ?_
  have hkeyword : Leaf.AllOf [.placed (.keyword .forWord) m.token.pos] [m] := .placed hm rfl
  exact ⟨(hkeyword.append hcondition.leaves).append hbody.leaves, hcondition.good, hbody.good⟩

/-- Behind the keyword of a `break` or `continue` nothing is taken. -/
theorem loopControl_takes (ctx : Context) (token : Token) (k : Keyword) {statement : Stmt}
    {before : List Mark} (h : statement.ReadFrom before) :
    (loopControl ctx token k statement).Takes before Stmt.ReadFrom := by
  unfold loopControl
  split
  · exact .pure h
  · exact .throw _

/-- Behind `return` a value is taken if there is one. -/
theorem returning_takes (hi : inner.Takes) (ctx : Context) (token : Token) {m : Mark}
    (hm : m.token.kind = .keyword .returnWord) :
    (returning inner ctx token).Takes [m] Stmt.ReadFrom := by
  have hvalue : (returnedValue inner).Takes [] Expr.ReadFrom? := by
    intro s value t h
    unfold returnedValue at h
    split at h
    · exact hi.expression.some s value t h
    · cases h
      exact ⟨[], rfl, Expr.readFrom?_none⟩
  rw [returning_eq]
  split
  · rw [Parser.map_eq_bind]
    refine hvalue.bindOwn fun value own hvalue => .pure ⟨?_, hvalue.good⟩
    exact (Leaf.AllOf.unplaced hm rfl).append hvalue.leaves
  · exact .throw _

/-- A name is one token. -/
theorem identifier_takes : identifier.Takes [] NameReadFrom := by
  intro s name t h
  unfold identifier at h
  split at h
  · cases h
    exact ⟨[_], rfl, .unplaced rfl rfl, trivial⟩
  · cases h

/-- A declaration has the keyword, the name, the parameters and the statements of the body. -/
theorem function_takes (hi : inner.Takes) {m : Mark} (hm : m.token.kind = .keyword .fnWord) :
    (function rounds inner).Takes [m] Stmt.ReadFrom := by
  unfold function
  refine identifier_takes.bindOwn fun name own hname => .expectBind fun paren hopen => ?_
  refine (commaSeparated_takes identifier_takes rounds _).bindOwn fun params own' hparams => ?_
  refine .expectBind fun brace hbrace => (hi.block _).bindOwn fun body own'' hbody => .pure ?_
  have hkeyword := Leaf.AllOf.unplaced hm rfl
  have hbrace := Leaf.AllOf.unplaced hbrace rfl
  have hnamed := (hkeyword.append hname.leaves).drop_right hopen rfl
  exact ⟨((hnamed.append hparams.leaves).append hbrace).append hbody.leaves, hbody.good⟩

/-- An expression by itself takes what the expression does. -/
theorem bareExpression_takes (hi : inner.Takes) :
    (bareExpression inner).Takes [] Stmt.ReadFrom := by
  unfold bareExpression
  exact hi.expression.bind fun e taken he => .pure ⟨he.leaves, he.good⟩

/-- An assignment has the name, the sign and the value. -/
theorem assignment_takes (hi : inner.Takes) {name : String} {m m' : Mark}
    (hm : m.token.kind = .identifier name) (hm' : m'.token.kind = .symbol .equal) :
    (assignment inner name).Takes ([m] ++ [m']) Stmt.ReadFrom := by
  unfold assignment
  refine hi.expression.bindOwn fun value own hvalue => .pure ⟨?_, hvalue.good⟩
  exact ((Leaf.AllOf.unplaced hm rfl).append (.unplaced hm' rfl)).append hvalue.leaves

/-- Statements take the tokens that they are made of, whichever kind it is. -/
theorem statement_takes (hi : inner.Takes) (ctx : Context) :
    (statement rounds inner ctx).Takes [] Stmt.ReadFrom := by
  intro rest s t h
  unfold statement at h
  split at h
  · exact bareExpression_takes hi _ _ _ h
  · next token joined behind =>
    have hbehind {p : Parser Stmt} (hp : p.Takes ([] ++ [⟨token, joined⟩]) Stmt.ReadFrom)
        (h : p behind = .ok (s, t)) :=
      hp.of_cons h
    split at h
    · next hkind => exact hbehind (conditional_takes hi ctx hkind) h
    · next hkind => exact hbehind (@loop_takes _ hi ctx ⟨token, joined⟩ hkind) h
    · next hkind =>
      have hword : Stmt.breakLoop.ReadFrom [⟨token, joined⟩] := ⟨.unplaced hkind rfl, trivial⟩
      exact hbehind (loopControl_takes ctx token _ hword) h
    · next hkind =>
      have hword : Stmt.continueLoop.ReadFrom [⟨token, joined⟩] := ⟨.unplaced hkind rfl, trivial⟩
      exact hbehind (loopControl_takes ctx token _ hword) h
    · next hkind => exact hbehind (function_takes hi hkind) h
    · next hkind => exact hbehind (returning_takes hi ctx token hkind) h
    · next hkind => exact hbehind (bareBlock_takes hi ctx hkind) h
    · next name hkind =>
      split at h
      · next hequal =>
        obtain ⟨m', rest, rfl, hm'⟩ := Parser.nextIs_eq_true.mp hequal
        have hassigns := @assignment_takes _ hi name ⟨token, joined⟩ m' hkind hm'
        obtain ⟨taken, htaken, hs⟩ := hassigns.of_cons h
        exact ⟨⟨token, joined⟩ :: taken, congrArg (_ :: ·) htaken, hs⟩
      · exact bareExpression_takes hi _ _ _ h
    · exact bareExpression_takes hi _ _ _ h

/-- The semicolons that come next, and what is behind them. -/
theorem dropSemicolons_takes (s : List Mark) :
    ∃ semicolons, s = semicolons ++ dropSemicolons s ∧ Leaf.AllOf [] semicolons := by
  refine ⟨s.takeWhile (·.token.kind = .symbol .semicolon), List.takeWhile_append_dropWhile.symm,
    .dropped fun m hm => ?_⟩
  have hkind := List.mem_takeWhile_imp hm
  rw [decide_eq_true_eq] at hkind
  rw [hkind]
  rfl

/-- No statements are made of no tokens. -/
theorem Stmt.allReadFrom_nil : Stmt.AllReadFrom (List.reverse []) [] := ⟨.nil, trivial⟩

/-- Statements in a row take their tokens one behind the other; semicolons between them are no
leaves. -/
theorem statements_takes (hi : inner.Takes) (ctx : Context) (inBlock : Bool) (more : Nat)
    {done : List Stmt} {before : List Mark} (hdone : Stmt.AllReadFrom done.reverse before) :
    (statements rounds inner ctx inBlock more done).Takes before Stmt.AllReadFrom := by
  induction more generalizing done before with
  | zero => exact .pure hdone
  | succ more ih =>
    intro s body t h
    obtain ⟨semicolons, hs, hdropped⟩ := dropSemicolons_takes s
    have hleaves := hdone.leaves.append hdropped
    rw [List.append_nil] at hleaves
    rw [statements_succ] at h
    split at h
    · cases h
      exact ⟨semicolons, hs, hleaves, hdone.good⟩
    · have hgoesOn : (statement rounds inner ctx >>= fun next =>
          statements rounds inner ctx inBlock more (next :: done)).Takes (before ++ semicolons)
            Stmt.AllReadFrom := by
        refine (statement_takes hi ctx).bindOwn fun next own hnext => ih ?_
        refine ⟨?_, ?_⟩
        · rw [List.reverse_cons, Stmt.allLeaves_append]
          have hone : Leaf.AllOf (Stmt.allLeaves [next]) own := by
            simpa [Stmt.allLeaves] using hnext.leaves
          exact hleaves.append hone
        · rw [List.reverse_cons]
          exact Stmt.allCallsPlaced_append hdone.good ⟨hnext.good, trivial⟩
      obtain ⟨taken, hmore, hbody⟩ := hgoesOn _ _ _ h
      refine ⟨semicolons ++ taken, ?_, ?_⟩
      · rw [List.append_assoc, ← hmore]
        exact hs
      · rwa [← List.append_assoc]

/-- A block takes its statements and the brace that closes it. -/
theorem block_takes (hi : inner.Takes) (ctx : Context) :
    (block rounds inner ctx).Takes [] Stmt.ClosedReadFrom := by
  unfold block
  refine (statements_takes hi ctx true rounds Stmt.allReadFrom_nil).bind fun body taken hbody => ?_
  refine .expectBind fun m hm => .pure ⟨?_, hbody.good⟩
  exact hbody.leaves.append (.unplaced hm rfl)

/-! ## Programs -/

/-- An expression is made of tokens at all. -/
theorem Expr.leaves_ne_nil : (e : Expr) → e.leaves ≠ []
  | .literal _ _ => by simp [leaves]
  | .var _ _ => by simp [leaves]
  | .unary _ _ _ => by simp [leaves]
  | .binary _ _ _ _ => by simp [leaves]
  | .call _ callee _ => fun h => callee.leaves_ne_nil (List.append_eq_nil_iff.mp h).1

/-- A statement is never read from nothing. -/
theorem Stmt.leaves_ne_nil (s : Stmt) : s.leaves ≠ [] := by
  cases s with
  | expr e => exact e.leaves_ne_nil
  | _ => simp [Stmt.leaves]

/-- Statements outside blocks are read up to the end, as each of them takes a token. -/
theorem statements_left_eq_nil (hi : inner.Takes) (ctx : Context) {more : Nat}
    {done body : List Stmt} {s t : List Mark} (hmore : s.length ≤ more)
    (h : statements rounds inner ctx false more done s = .ok (body, t)) : t = [] := by
  induction more generalizing done s with
  | zero =>
    obtain rfl := List.length_eq_zero_iff.mp (Nat.le_zero.mp hmore)
    cases h
    rfl
  | succ more ih =>
    have hshorter := dropSemicolons_length_le s
    rw [statements_succ, Bool.false_and, Bool.or_false] at h
    split at h
    · next hend =>
      cases h
      exact List.isEmpty_iff.mp hend
    · obtain ⟨next, u, hnext, hrest⟩ := Parser.bind_eq_ok.mp h
      obtain ⟨taken, hs, hread⟩ := statement_takes hi ctx _ _ _ hnext
      have htaken := List.length_pos_iff.mpr (hread.leaves.ne_nil next.leaves_ne_nil)
      rw [hs, List.length_append] at hshorter
      rw [List.nil_append] at htaken
      exact ih (by omega) hrest

end

/-- Whatever room there is, productions take what they are made of. -/
theorem grammarWithin_takes (rounds room : Nat) : (grammarWithin rounds room).Takes := by
  induction room with
  | zero => exact ⟨.failNext _, .failNext _, fun _ => .failNext _⟩
  | succ room ih => exact ⟨expression_takes ih, unary_takes ih, fun ctx => block_takes ih ctx⟩

/-- The marks of tokens are marks of these tokens. -/
theorem tokens_of_marks (tokens : List Token) : (marks tokens).map (·.token) = tokens := by
  have hafter (previous : Token) (tokens : List Token) :
      (marksAfter previous tokens).map (·.token) = tokens := by
    induction tokens generalizing previous with
    | nil => rfl
    | cons t rest ih => exact congrArg (t :: ·) (ih t)
  cases tokens with
  | nil => rfl
  | cons t rest => exact congrArg (t :: ·) (hafter t rest)

/-- **The parser loses, invents and reorders nothing.** The leaves of what is parsed, from left to
right, are the tokens without parentheses and semicolons: each has the kind of its token, and where
it has a position, that of its token. Every call has the position of its callee. -/
theorem parse_keeps_tokens {tokens : List Token} {program : List Stmt}
    (h : parse tokens = .ok program) :
    List.Forall₂ Leaf.Of (Stmt.allLeaves program) (tokens.filter (·.kind.isKept)) ∧
      Stmt.AllCallsPlaced program := by
  obtain ⟨rest, hread⟩ := parse_eq_ok.mp h
  have hi := grammarWithin_takes tokens.length maxNesting
  have hall := statements_left_eq_nil hi ⟨false, false⟩ (Nat.le_of_eq (length_marks tokens)) hread
  obtain ⟨taken, hmarks, hprogram⟩ :=
    statements_takes hi ⟨false, false⟩ false tokens.length Stmt.allReadFrom_nil _ _ _ hread
  rw [hall, List.append_nil] at hmarks
  obtain rfl := hmarks
  have hleaves := hprogram.leaves
  rw [List.nil_append] at hleaves
  unfold Leaf.AllOf keptTokens at hleaves
  rw [tokens_of_marks] at hleaves
  exact ⟨hleaves, hprogram.good⟩

/-- The argument in parentheses and the operator keep their places in `f((1), -x);`. -/
theorem parse_keeps_tokens_of_call :
    let tokens : List Token := [⟨.identifier "f", "f", ⟨1, 1⟩⟩, ⟨.symbol .leftParen, "(", ⟨1, 2⟩⟩,
      ⟨.symbol .leftParen, "(", ⟨1, 3⟩⟩, ⟨.integer 1, "1", ⟨1, 4⟩⟩,
      ⟨.symbol .rightParen, ")", ⟨1, 5⟩⟩, ⟨.symbol .comma, ",", ⟨1, 6⟩⟩,
      ⟨.symbol .minus, "-", ⟨1, 8⟩⟩, ⟨.identifier "x", "x", ⟨1, 9⟩⟩,
      ⟨.symbol .rightParen, ")", ⟨1, 10⟩⟩, ⟨.symbol .semicolon, ";", ⟨1, 11⟩⟩]
    let program : List Stmt := [.expr (.call ⟨1, 1⟩ (.var ⟨1, 1⟩ "f")
      [.literal ⟨1, 4⟩ (.int 1), .unary ⟨1, 8⟩ (.symbol .minus) (.var ⟨1, 9⟩ "x")])]
    parse tokens = .ok program ∧
      List.Forall₂ Leaf.Of (Stmt.allLeaves program) (tokens.filter (·.kind.isKept)) ∧
      Stmt.AllCallsPlaced program :=
  ⟨rfl, parse_keeps_tokens rfl⟩

end TwinScript
