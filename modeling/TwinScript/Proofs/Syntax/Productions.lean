import TwinScript.Proofs.Syntax.SideBySide

/-!
# The productions of the descent

Each production of the descent reads as the grammar's production does, if what is one level further
in does (`Deeper.Reads`). All of them take a token at least, but for those that are entered behind
their only one.

* `Descent.logicOr_reads`: expressions, level by level of their operators.
* `Descent.statement_reads`: statements, by their first token.
-/

namespace TwinScript

variable {tokens : List Token} {c : Cursor}

namespace Descent

/-! ## Productions -/

/-- The grammar with as many levels as the limit leaves at this nesting. -/
abbrev grammarAt (tokens : List Token) (n : Nat) : Inner :=
  grammarWithin tokens.length (maxNesting - n)

/-- At this nesting, what is one level further in reads as it does in the grammar. -/
structure Deeper.Reads (deeper : Deeper) (tokens : List Token) (n : Nat) : Prop where
  expression : (Descent.expression deeper).Progresses tokens n fun _ =>
    (grammarAt tokens n).expression
  operand : (nested deeper.unary).Progresses tokens n fun _ => (grammarAt tokens n).operand
  block : (Descent.block deeper).Progresses tokens n (grammarAt tokens n).block

section

variable {n rounds : Nat} {deeper : Deeper} (hi : deeper.Reads tokens n)
include hi

/-- Behind the opening parenthesis: an expression and the closing one. -/
theorem parenthesized_reads (hn : c.nesting = n) (hc : c.index ≤ tokens.length) :
    (expression deeper >>= fun e => expect (.symbol .rightParen) "')'" >>= fun _ =>
      (pure e : Descent Expr)).ReadsAs tokens c (c.index + 1)
        (TwinScript.parenthesized (grammarAt tokens n)) := by
  apply (hi.expression c hn hc).bind
  intro e i hless hlength
  apply ((expect_reads .rightParen _).mono (Nat.le_succ_of_le hless)).bind
  exact fun _ j hj hlast => .pure e hj hlast

/-- What a primary expression is, by its first token, which has been taken. -/
theorem operandBehind_reads (hn : c.nesting = n) (hc : c.index ≤ tokens.length) (token : Token)
    (joined : Bool) :
    (operandBehind deeper token).ReadsAs tokens c c.index fun behind =>
      TwinScript.primary (grammarAt tokens n) (⟨token, joined⟩ :: behind) := by
  unfold operandBehind
  split
  · next value hvalue =>
    refine .onward (j := c.index) (.pure _ (Nat.le_refl _) hc) rfl ?_
    simp only [TwinScript.primary, hvalue]
    rfl
  · next name _ hkind =>
    refine .onward (j := c.index) (.pure _ (Nat.le_refl _) hc) rfl ?_
    simp only [TwinScript.primary, hkind]
    rfl
  · next hkind =>
    have hinner := (parenthesized_reads hi hn hc).mono (Nat.le_succ _)
    refine .onward (j := c.index) hinner rfl ?_
    simp only [TwinScript.primary, hkind]
    rfl
  · next hvalue hname hparen =>
    refine .inr ⟨⟨.unexpectedToken, some token⟩, c.index, rfl, ?_⟩
    unfold TwinScript.primary
    dsimp only
    split
    · next hsome => cases hvalue.symm.trans hsome
    · next hkind => exact (hname _ hkind).elim
    · next hkind => exact (hparen hkind).elim
    · rfl

/-- The index moves on before the token is looked at, also if there is none. -/
theorem primary_reads : (primary deeper).Progresses tokens n fun _ =>
    TwinScript.primary (grammarAt tokens n) := by
  intro c hn hc
  have hadvance : advance tokens c = .done tokens[c.index]? (c.moved (c.index + 1)) := rfl
  cases h : tokens[c.index]? with
  | none =>
    rw [h] at hadvance
    refine .inr ⟨⟨.unexpectedToken, none⟩, c.index + 1, bind_of_done hadvance _, ?_⟩
    rw [drop_marks_of_none h]
    rfl
  | some token =>
    rw [h] at hadvance
    have hinside := lt_length_of_getElem? h
    have hbehind := operandBehind_reads hi (c := c.moved (c.index + 1)) hn hinside token
      (joinedAt tokens c.index token)
    refine .onward hbehind (bind_of_done hadvance _) ?_
    rw [drop_marks_of_some h]

section

variable (hrounds : tokens.length < rounds)
include hrounds

/-- The arguments of a call, up to the closing parenthesis. -/
theorem finishCall_reads (callee : Expr) :
    (finishCall rounds deeper callee).Progresses tokens n fun _ =>
      TwinScript.commaSeparated tokens.length (grammarAt tokens n).expression
        "')' after arguments" >>= fun args => pure (.call callee.pos callee args) := by
  intro c hn hc
  apply (commaSeparated_reads hn hc hrounds hi.expression _).bind
  exact fun args i hless hlength => .pure _ hless hlength

/-- Calls on calls, of which each takes its opening parenthesis at least. -/
theorem callsOn_reads (hn : c.nesting = n) (hc : c.index ≤ tokens.length) {more turns : Nat}
    (hmore : tokens.length - c.index ≤ more) (hturns : tokens.length - c.index < turns)
    (callee : Expr) :
    (callsOn rounds deeper turns callee).ReadsAs tokens c c.index
      (TwinScript.callsOn tokens.length (grammarAt tokens n) more callee) := by
  have haccepts : (acceptOnLine [.symbol .leftParen]).Accepts tokens
      (Mark.continuesWith [.leftParen]) :=
    acceptOnLine_accepts fun m => m.continuesWith_of_bound (by decide)
  induction turns generalizing c callee more with
  | zero => exact absurd hturns (Nat.not_lt_zero _)
  | succ turns ih =>
    unfold callsOn
    have hends : (Pure.pure callee : Descent Expr).ReadsAs tokens c c.index (Pure.pure callee) :=
      .pure callee (Nat.le_refl _) hc
    cases more with
    | zero =>
      have hread := haccepts c
      rw [getElem?_eq_none_of_sub_le hmore] at hread
      exact .onward hends (bind_of_done hread _) rfl
    | succ more =>
      unfold TwinScript.callsOn
      refine haccepts.bind (fun op hop _ => ?_) hends
      have hinside : c.index + 1 ≤ tokens.length := lt_length_of_getElem? hop
      have hcall : (finishCall rounds deeper callee >>= callsOn rounds deeper turns).ReadsAs tokens
          (c.moved (c.index + 1)) c.index
          ((TwinScript.commaSeparated tokens.length (grammarAt tokens n).expression
            "')' after arguments" >>= fun args => pure (.call callee.pos callee args)) >>=
              TwinScript.callsOn tokens.length (grammarAt tokens n) more) := by
        apply (finishCall_reads hi hrounds callee (c.moved (c.index + 1)) hn hinside).bind
        intro result i hless hlength
        rw [Cursor.index_moved] at hless
        have hfewer : tokens.length - i ≤ more ∧ tokens.length - i < turns ∧ c.index ≤ i := by omega
        exact (ih (c := c.moved i) hn hlength hfewer.1 hfewer.2.1 result).mono hfewer.2.2
      simp only [bind_assoc, pure_bind] at hcall
      exact hcall

/-- A primary expression and the calls on its line. -/
theorem call_reads : (call rounds deeper).Progresses tokens n fun _ =>
    TwinScript.call tokens.length (grammarAt tokens n) := by
  intro c hn hc
  apply (primary_reads hi c hn hc).bind
  intro callee i hless hlength
  have hfew : tokens.length - i ≤ tokens.length := Nat.sub_le _ _
  have hfewer : tokens.length - i < rounds := Nat.lt_of_le_of_lt hfew hrounds
  exact (callsOn_reads hi hrounds (c := c.moved i) hn hlength hfew hfewer callee).mono hless

/-- Prefix operators, each one level further in. -/
theorem unary_reads : (unary rounds deeper).Progresses tokens n fun _ =>
    TwinScript.unary tokens.length (grammarAt tokens n) := by
  intro c hn hc
  have haccepts : (acceptAny [.symbol .bang, .symbol .minus]).Accepts tokens
      (Mark.isOneOf [.bang, .minus]) := acceptAny_accepts fun m => m.isOneOf_eq_contains
  refine haccepts.bind (fun op hop _ => ?_) (call_reads hi hrounds c hn hc)
  refine .onward (j := c.index + 1) ?_ (previous_bind hop _) rfl
  apply (hi.operand (c.moved (c.index + 1)) hn (lt_length_of_getElem? hop)).bind
  exact fun operand i hless hlength => .pure _ (Nat.le_of_succ_le hless) hlength

/-- The tightest level of binary operators is over prefix operators. Each level from here on takes
its operands from the one before it. -/
theorem factor_reads : (factor rounds deeper).Progresses tokens n fun _ =>
    binary tokens.length (TwinScript.unary tokens.length (grammarAt tokens n))
      (operatorLevels.drop 5)  := by
  have hoperand : (unary rounds deeper).Progresses tokens n fun _ =>
      binary tokens.length (TwinScript.unary tokens.length (grammarAt tokens n)) [] :=
    unary_reads hi hrounds
  exact level_reads [.slash, .star, .percent] hrounds
    (acceptAny_accepts fun m => m.continuesWith_of_free (by decide)) hoperand

/-- Sums and differences of such operands. -/
theorem term_reads : (term rounds deeper).Progresses tokens n fun _ =>
    binary tokens.length (TwinScript.unary tokens.length (grammarAt tokens n))
      (operatorLevels.drop 4) :=
  level_reads [.plus, .minus] hrounds
    (acceptOnLine_accepts fun m => m.continuesWith_of_bound (by decide)) (factor_reads hi hrounds)

/-- Comparisons of sums. -/
theorem comparison_reads : (comparison rounds deeper).Progresses tokens n fun _ =>
    binary tokens.length (TwinScript.unary tokens.length (grammarAt tokens n))
      (operatorLevels.drop 3) :=
  level_reads [.greater, .greaterEqual, .less, .lessEqual] hrounds
    (acceptAny_accepts fun m => m.continuesWith_of_free (by decide)) (term_reads hi hrounds)

/-- Equalities of comparisons. -/
theorem equality_reads : (equality rounds deeper).Progresses tokens n fun _ =>
    binary tokens.length (TwinScript.unary tokens.length (grammarAt tokens n))
      (operatorLevels.drop 2) :=
  level_reads [.bangEqual, .equalEqual] hrounds
    (acceptAny_accepts fun m => m.continuesWith_of_free (by decide)) (comparison_reads hi hrounds)

/-- Conjunctions of equalities. -/
theorem logicAnd_reads : (logicAnd rounds deeper).Progresses tokens n fun _ =>
    binary tokens.length (TwinScript.unary tokens.length (grammarAt tokens n))
      (operatorLevels.drop 1) :=
  level_reads [.andAnd] hrounds
    (acceptAny_accepts fun m => m.continuesWith_of_free (by decide)) (equality_reads hi hrounds)

/-- Disjunctions of conjunctions: all levels, and so any expression. -/
theorem logicOr_reads : (logicOr rounds deeper).Progresses tokens n fun _ =>
    TwinScript.expression tokens.length (grammarAt tokens n) :=
  level_reads [.orOr] hrounds
    (acceptAny_accepts fun m => m.continuesWith_of_free (by decide)) (logicAnd_reads hi hrounds)

end

/-! ### Statements -/

/-- A block, as the body of a conditional or a loop. -/
theorem body_reads : (body deeper).Progresses tokens n (TwinScript.body (grammarAt tokens n)) := by
  intro c hn hc
  unfold TwinScript.body
  apply (expect_reads .leftBrace _).bind
  intro _ i hless hlength
  apply ((hi.block (c.moved i) hn hlength).mono (Nat.le_succ_of_le hless)).bind
  exact fun statements j hj hlast => .pure _ hj hlast

/-- Behind `if`: a condition and a body. -/
theorem conditional_reads : (conditional deeper).Progresses tokens n
    (TwinScript.conditional (grammarAt tokens n)) := by
  intro c hn hc
  apply (hi.expression c hn hc).bind
  intro condition i hless hlength
  apply ((body_reads hi (c.moved i) hn hlength).mono (Nat.le_succ_of_le hless)).bind
  exact fun body j hj hlast => .pure _ hj hlast

/-- The condition of a loop is missing if a brace comes at once. -/
theorem loopGuard_reads (hn : c.nesting = n) (hc : c.index ≤ tokens.length) :
    (loopGuard deeper).ReadsAs tokens c c.index (TwinScript.loopGuard (grammarAt tokens n)) := by
  have hread : loopGuard deeper tokens c = _ := bind_of_done (check_apply _) _
  have hgrammar : TwinScript.loopGuard (grammarAt tokens n) ((marks tokens).drop c.index) =
      if (tokens[c.index]?).any (·.kind = .symbol .leftBrace) then
        .ok (none, (marks tokens).drop c.index)
      else (some <$> (grammarAt tokens n).expression) ((marks tokens).drop c.index) := by
    rw [TwinScript.loopGuard, nextIs_drop_marks]
  by_cases hbrace : (tokens[c.index]?).any (·.kind = .symbol .leftBrace) = true
  · rw [if_pos hbrace] at hread hgrammar
    exact .inl ⟨none, c.index, hread, hgrammar, Nat.le_refl _, hc⟩
  · rw [if_neg hbrace] at hread hgrammar
    rw [Parser.map_eq_bind] at hgrammar
    refine .onward (j := c.index) ?_ hread hgrammar
    apply (hi.expression c hn hc).bind
    exact fun e i hless hlength => .pure _ (Nat.le_of_succ_le hless) hlength

section

variable {keyword : Token} (hzero : c.index ≠ 0) (hkeyword : tokens[c.index - 1]? = some keyword)
include hzero hkeyword

/-- A loop looks back at its keyword for its place. -/
theorem loop_reads (hn : c.nesting = n) (hc : c.index ≤ tokens.length) :
    (loop deeper).ReadsAs tokens c (c.index + 1)
      (TwinScript.loop (grammarAt tokens n) c.context keyword.pos) := by
  have hread : loop deeper tokens c = _ := bind_of_done (previous_of_some hzero hkeyword) _
  rw [loop_eq]
  refine .onward (j := c.index) ?_ hread rfl
  apply (loopGuard_reads hi hn hc).bind
  intro condition i hless hlength
  have hbody : (insideLoop (body deeper)).ReadsAs tokens (c.moved i) (c.index + 1)
      (TwinScript.body (grammarAt tokens n) { c.context with inLoop := true }) := by
    have hinside := body_reads hi { c.moved i with loopDepth := c.loopDepth + 1 } hn hlength
    exact .within rfl (fun _ => rfl) (hinside.mono (Nat.succ_le_succ hless))
  apply hbody.bind
  exact fun body j hj hlast => .pure _ hj hlast

omit hi in
/-- Behind `break` or `continue`: nothing, but only inside a loop. The error looks back at the
keyword. -/
theorem loopControl_reads (k : Keyword) (word : Stmt) (hc : c.index ≤ tokens.length) :
    (loopControl k word).ReadsAs tokens c c.index
      (TwinScript.loopControl c.context keyword k word) := by
  have hread : loopControl k word tokens c = _ := cursor_bind _
  rw [ite_apply, bind_of_done (previous_of_some hzero hkeyword)] at hread
  unfold TwinScript.loopControl Cursor.context
  by_cases hloop : c.loopDepth = 0
  · rw [if_pos hloop] at hread
    rw [hloop]
    exact .inr ⟨_, c.index, hread, rfl⟩
  · rw [if_neg hloop] at hread
    rw [if_pos (decide_eq_true (Nat.pos_of_ne_zero hloop))]
    exact .inl ⟨word, c.index, hread, rfl, Nat.le_refl _, hc⟩

omit hi in
/-- The value is looked for on the line of the keyword, which is the token before the cursor. -/
theorem returnsValue_drop_marks :
    returnsValue ((marks tokens).drop c.index) = (tokens[c.index]?).any fun token =>
      token.pos.line = keyword.pos.line && token.kind ≠ .symbol .rightBrace &&
        token.kind ≠ .symbol .semicolon := by
  unfold returnsValue
  rw [nextIs_drop_marks, nextIs_drop_marks]
  cases h : tokens[c.index]? with
  | none => rw [drop_marks_of_none h]; rfl
  | some token =>
    rw [drop_marks_of_some h]
    simp [joinedAt, hzero, hkeyword]

/-- There is a value where the token behind `return` is on its line and is neither a brace that
closes nor a semicolon. -/
theorem returnedValue_reads (hn : c.nesting = n) (hc : c.index ≤ tokens.length) :
    (returnedValue deeper keyword).ReadsAs tokens c c.index
      (TwinScript.returnedValue (grammarAt tokens n)) := by
  have hread : returnedValue deeper keyword tokens c = _ := peek?_bind _
  rw [ite_apply, ← returnsValue_drop_marks hzero hkeyword] at hread
  by_cases hvalue : returnsValue ((marks tokens).drop c.index) = true
  · rw [if_pos hvalue] at hread
    have hgrammar : TwinScript.returnedValue (grammarAt tokens n) ((marks tokens).drop c.index) =
        ((grammarAt tokens n).expression >>= fun e => pure (some e))
          ((marks tokens).drop c.index) := by
      rw [TwinScript.returnedValue, if_pos hvalue, Parser.map_eq_bind]
    refine .onward (j := c.index) ?_ hread hgrammar
    apply (hi.expression c hn hc).bind
    exact fun e i hless hlength => .pure _ (Nat.le_of_succ_le hless) hlength
  · rw [if_neg hvalue] at hread
    exact .inl ⟨none, c.index, hread, if_neg hvalue, Nat.le_refl _, hc⟩

/-- Behind `return`: perhaps a value, but only inside a function. -/
theorem returning_reads (hn : c.nesting = n) (hc : c.index ≤ tokens.length) :
    (returning deeper).ReadsAs tokens c c.index
      (TwinScript.returning (grammarAt tokens n) c.context keyword) := by
  have hread : returning deeper tokens c = _ := bind_of_done (previous_of_some hzero hkeyword) _
  rw [cursor_bind, ite_apply] at hread
  rw [returning_eq]
  by_cases hfunction : c.inFunction = true
  · rw [if_pos hfunction] at hread
    rw [if_pos (show c.context.inFunction = true from hfunction), Parser.map_eq_bind]
    refine .onward (j := c.index) ?_ hread rfl
    apply (returnedValue_reads hi hzero hkeyword hn hc).bind
    exact fun value i hless hlength => .pure _ hless hlength
  · rw [if_neg hfunction] at hread
    rw [if_neg (show ¬ c.context.inFunction = true from hfunction)]
    exact .inr ⟨_, c.index, hread, rfl⟩

end

/-- The body of a function is a block in the context of one. -/
theorem functionBody_reads : (functionBody deeper).Progresses tokens n fun ctx =>
    TwinScript.expect .leftBrace "'\x7b' before function body" >>= fun _ =>
      (grammarAt tokens n).block ctx := by
  intro c hn hc
  apply (expect_reads .leftBrace _).bind
  intro _ i hless hlength
  exact (hi.block (c.moved i) hn hlength).mono (Nat.le_succ_of_le hless)

/-- A block by itself. -/
theorem bareBlock_reads : (block deeper >>= fun statements =>
    (pure (.block statements) : Descent Stmt)).Progresses tokens n
      (TwinScript.bareBlock (grammarAt tokens n)) := by
  intro c hn hc
  apply (hi.block c hn hc).bind
  exact fun statements i hless hlength => .pure _ hless hlength

/-- An expression by itself. -/
theorem bareExpression_reads : (expression deeper >>= fun e =>
    (pure (.expr e) : Descent Stmt)).Progresses tokens n fun _ =>
      TwinScript.bareExpression (grammarAt tokens n) := by
  intro c hn hc
  apply (hi.expression c hn hc).bind
  exact fun e i hless hlength => .pure _ hless hlength

/-- A name, the sign and a value. -/
theorem assignment_reads : (assignment deeper).Progresses tokens n fun _ =>
    TwinScript.identifier >>= fun name => TwinScript.expect .equal "'='" >>= fun _ =>
      TwinScript.assignment (grammarAt tokens n) name := by
  intro c hn hc
  apply identifier_reads.bind
  intro name i hname hlength
  apply (expect_reads .equal _).bind
  intro _ j hequal hbehind
  have hleast := Nat.le_trans hname (Nat.le_of_succ_le hequal)
  apply ((hi.expression (c.moved j) hn hbehind).mono (Nat.le_succ_of_le hleast)).bind
  exact fun value k hvalue hlast => .pure _ hvalue hlast

section

variable (hrounds : tokens.length < rounds)
include hrounds

/-- Loops around a function are not around its body. -/
theorem function_reads : (function rounds deeper).Progresses tokens n fun _ =>
    TwinScript.function tokens.length (grammarAt tokens n) := by
  intro c hn hc
  apply identifier_reads.bind
  intro name i hname hi'
  apply (expect_reads .leftParen _).bind
  intro _ j hopened hj
  have hnames : identifier.Progresses tokens n fun _ => TwinScript.identifier :=
    fun _ _ _ => identifier_reads
  apply (commaSeparated_reads (c := c.moved j) hn hj hrounds hnames _).bind
  intro params k hclosed hk
  rw [Cursor.index_moved] at hopened hclosed
  have hbody : (insideFunction (functionBody deeper)).ReadsAs tokens (c.moved k) (c.index + 1)
      (TwinScript.expect .leftBrace "'\x7b' before function body" >>= fun _ =>
        (grammarAt tokens n).block ⟨false, true⟩) := by
    have hinside := functionBody_reads hi
      { c.moved k with loopDepth := 0, inFunction := true } hn hk
    have hleast : c.index + 1 ≤ k + 1 := by omega
    have hentered : insideFunction (functionBody deeper) tokens (c.moved k) = _ := cursor_bind _
    refine .onward (j := k) (.within ?_ ?_ (hinside.mono hleast)) hentered rfl
    · rfl
    · exact fun _ => rfl
  have hall : (insideFunction (functionBody deeper) >>= fun body =>
      (pure (.function name params body) : Descent Stmt)).ReadsAs tokens (c.moved k) (c.index + 1)
      ((TwinScript.expect .leftBrace "'\x7b' before function body" >>= fun _ =>
        (grammarAt tokens n).block ⟨false, true⟩) >>= fun body =>
          pure (.function name params body)) :=
    hbody.bind fun body _ hless hlength => .pure _ hless hlength
  simp only [bind_assoc] at hall
  exact hall

omit hi hrounds in
/-- A name begins an assignment if the sign is the token behind it. -/
theorem atAssignment_of_name {token : Token} (h : tokens[c.index]? = some token) {name : String}
    (hkind : token.kind = .identifier name) :
    atAssignment tokens c =
      .done ((tokens[c.index + 1]?).any (·.kind = .symbol .equal)) c := by
  obtain ⟨kind, lexeme, pos⟩ := token
  cases hkind
  unfold atAssignment
  rw [h]

omit hi hrounds in
/-- No other token begins one. -/
theorem atAssignment_of_other {token : Token} (h : tokens[c.index]? = some token)
    (hkind : ∀ name, token.kind = .identifier name → False) :
    atAssignment tokens c = .done false c := by
  obtain ⟨kind, lexeme, pos⟩ := token
  unfold atAssignment
  rw [h]
  cases kind with
  | identifier name => exact (hkind name rfl).elim
  | _ => rfl

omit hi hrounds in
/-- An assignment whose name and sign come next is as good as its value. -/
theorem assignment_eq {token : Token} (h : tokens[c.index]? = some token) {name : String}
    (hkind : token.kind = .identifier name)
    (hequal : (tokens[c.index + 1]?).any (·.kind = .symbol .equal) = true) (inner : Inner) :
    (TwinScript.identifier >>= fun name => TwinScript.expect .equal "'='" >>= fun _ =>
      TwinScript.assignment inner name) ((marks tokens).drop c.index) =
      TwinScript.assignment inner name ((marks tokens).drop (c.index + 1)).tail := by
  have hname : TwinScript.identifier ((marks tokens).drop c.index) =
      .ok (name, (marks tokens).drop (c.index + 1)) := by
    obtain ⟨kind, lexeme, pos⟩ := token
    cases hkind
    rw [drop_marks_of_some h]
    rfl
  have hsign : TwinScript.expect .equal "'='" ((marks tokens).drop (c.index + 1)) =
      .ok ((), ((marks tokens).drop (c.index + 1)).tail) := by
    rw [TwinScript.expect, nextIs_drop_marks, if_pos hequal]
  simp only [Parser.bind_apply, hname, hsign]

omit hi hrounds in
/-- At the end of the tokens no statement begins, and neither does an expression. -/
theorem statement_of_none (h : tokens[c.index]? = none) :
    statement rounds deeper tokens c =
      (expression deeper >>= fun e => (pure (.expr e) : Descent Stmt)) tokens c := by
  have hpasses (kind : Token.Kind) : accept kind tokens c = .done false c := by
    rw [accept_apply, h]
    rfl
  have hassignment : atAssignment tokens c = .done false c := by
    unfold atAssignment
    rw [h]
  unfold statement
  iterate 7 rw [bind_of_done (hpasses _), if_neg Bool.false_ne_true]
  rw [bind_of_done hassignment, if_neg Bool.false_ne_true]

/-- The first token decides. The descent asks for one kind after the other, and the grammar for all
of them at once. -/
theorem statement_reads : (statement rounds deeper).Progresses tokens n
    (TwinScript.statement tokens.length (grammarAt tokens n)) := by
  intro c hn hc
  cases h : tokens[c.index]? with
  | none =>
    refine .onward (j := c.index) (bareExpression_reads hi c hn hc) (statement_of_none h) ?_
    rw [drop_marks_of_none h]
    rfl
  | some token =>
    have hinside : c.index + 1 ≤ tokens.length := lt_length_of_getElem? h
    have hbehind : (c.moved (c.index + 1)).nesting = n := hn
    have hzero : (c.moved (c.index + 1)).index ≠ 0 := Nat.succ_ne_zero _
    have hkeyword : tokens[(c.moved (c.index + 1)).index - 1]? = some token := h
    have hread : statement rounds deeper tokens c = _ := accept_then h _ _ _
    simp only [accept_then h] at hread
    unfold ReadsAs
    rw [drop_marks_of_some h]
    unfold TwinScript.statement
    dsimp only
    split
    · next hkind =>
      have hcase : statement rounds deeper tokens c =
          conditional deeper tokens (c.moved (c.index + 1)) := by
        simp [hread, hkind]
      rw [hcase]
      exact (conditional_reads hi _ hbehind hinside).mono (Nat.le_succ _)
    · next hkind =>
      have hcase : statement rounds deeper tokens c =
          loop deeper tokens (c.moved (c.index + 1)) := by
        simp [hread, hkind]
      rw [hcase]
      exact (loop_reads hi hzero hkeyword hbehind hinside).mono (Nat.le_succ _)
    · next hkind =>
      have hcase : statement rounds deeper tokens c =
          loopControl .breakWord .breakLoop tokens (c.moved (c.index + 1)) := by
        simp [hread, hkind]
      rw [hcase]
      exact loopControl_reads hzero hkeyword _ _ hinside
    · next hkind =>
      have hcase : statement rounds deeper tokens c =
          loopControl .continueWord .continueLoop tokens (c.moved (c.index + 1)) := by
        simp [hread, hkind]
      rw [hcase]
      exact loopControl_reads hzero hkeyword _ _ hinside
    · next hkind =>
      have hcase : statement rounds deeper tokens c =
          function rounds deeper tokens (c.moved (c.index + 1)) := by
        simp [hread, hkind]
      rw [hcase]
      exact (function_reads hi hrounds _ hbehind hinside).mono (Nat.le_succ _)
    · next hkind =>
      have hcase : statement rounds deeper tokens c =
          returning deeper tokens (c.moved (c.index + 1)) := by
        simp [hread, hkind]
      rw [hcase]
      exact returning_reads hi hzero hkeyword hbehind hinside
    · next hkind =>
      have hcase : statement rounds deeper tokens c =
          (block deeper >>= fun statements => (pure (.block statements) : Descent Stmt)) tokens
            (c.moved (c.index + 1)) := by
        simp [hread, hkind]
      rw [hcase]
      exact (bareBlock_reads hi _ hbehind hinside).mono (Nat.le_succ _)
    · next name hkind =>
      have hcase : statement rounds deeper tokens c = (atAssignment >>= fun found =>
          if found = true then assignment deeper
          else expression deeper >>= fun e => (pure (.expr e) : Descent Stmt)) tokens c := by
        simp [hread, hkind]
      rw [hcase, bind_of_done (atAssignment_of_name h hkind), nextIs_drop_marks]
      by_cases hequal : (tokens[c.index + 1]?).any (·.kind = .symbol .equal) = true
      · have hassigns := assignment_reads hi c hn hc
        unfold ReadsAs at hassigns
        dsimp only at hassigns
        rw [assignment_eq h hkind hequal] at hassigns
        rw [if_pos hequal, if_pos hequal]
        exact hassigns
      · rw [if_neg hequal, if_neg hequal, ← drop_marks_of_some h]
        exact bareExpression_reads hi c hn hc
    · next hif hfor hbreak hcontinue hfn hreturn hbrace hname =>
      have hcase : statement rounds deeper tokens c = (atAssignment >>= fun found =>
          if found = true then assignment deeper
          else expression deeper >>= fun e => (pure (.expr e) : Descent Stmt)) tokens c := by
        rw [hread, if_neg hif, if_neg hfor, if_neg hbreak, if_neg hcontinue, if_neg hfn,
          if_neg hreturn, if_neg hbrace]
      rw [hcase, bind_of_done (atAssignment_of_other h hname), ← drop_marks_of_some h]
      exact bareExpression_reads hi c hn hc

end

end

end Descent

end TwinScript
