import TwinScript.Proofs.Syntax.Productions

/-!
# Progress of the descent

The descent with a cursor makes of a list of tokens what the grammar makes of it, and stays inside
the list.

* `Descent.deeper_reads`: how deep the productions nest is one induction, on the levels.
* `Rule.reads`: every production takes tokens, wherever it is entered.
* `descent_stays_inside`: the descent over a whole list of tokens, and each production in it.
-/

namespace TwinScript

variable {α : Type} {tokens : List Token} {c : Cursor} {least : Nat}

namespace Descent

/-! ## Sequences of statements -/

/-- Semicolons, one a round. -/
theorem skipSemicolons_reads {rounds : Nat} (hc : c.index ≤ tokens.length)
    (hrounds : tokens.length - c.index < rounds) :
    (skipSemicolons rounds).ReadsAs tokens c c.index (modify dropSemicolons) := by
  induction rounds generalizing c with
  | zero => exact absurd hrounds (Nat.not_lt_zero _)
  | succ rounds ih =>
    cases h : tokens[c.index]? with
    | none =>
      have hread : accept (.symbol .semicolon) tokens c = _ := accept_apply _
      rw [h] at hread
      refine .inl ⟨(), c.index, bind_of_done hread _, ?_, Nat.le_refl _, hc⟩
      rw [drop_marks_of_none h]
      rfl
    | some token =>
      have hread : skipSemicolons (rounds + 1) tokens c = _ := accept_then h _ _ _
      have hinside : c.index + 1 ≤ tokens.length := lt_length_of_getElem? h
      by_cases hkind : token.kind = .symbol .semicolon
      · rw [if_pos hkind] at hread
        have hrest : tokens.length - (c.index + 1) < rounds := by omega
        have hbehind := ih (c := c.moved (c.index + 1)) hinside hrest
        refine .onward (hbehind.mono (Nat.le_succ _)) hread ?_
        rw [drop_marks_of_some h]
        simp [dropSemicolons, hkind]
      · rw [if_neg hkind] at hread
        refine .inl ⟨(), c.index, hread, ?_, Nat.le_refl _, hc⟩
        rw [drop_marks_of_some h]
        simp [dropSemicolons, hkind]

/-- What follows where no statement does, and what where one does. -/
theorem atEnd_bind (inBlock : Bool) {yes no : Descent α} {yes' no' : Parser α}
    (hyes : yes.ReadsAs tokens c least yes')
    (hno : c.index < tokens.length → no.ReadsAs tokens c least no') :
    (atEnd inBlock >>= fun found => if found = true then yes else no).ReadsAs tokens c least
      (get >>= fun rest =>
        if rest.isEmpty || (inBlock && nextIs .rightBrace rest) then yes' else no') := by
  have hread : atEnd inBlock tokens c = _ := peek?_bind _
  cases h : tokens[c.index]? with
  | none =>
    rw [h] at hread
    refine .onward (j := c.index) hyes (bind_of_done hread _) ?_
    rw [drop_marks_of_none h]
    rfl
  | some token =>
    have hnext := nextIs_drop_marks .rightBrace tokens c.index
    have hcons : ((marks tokens).drop c.index).isEmpty = false := by
      rw [drop_marks_of_some h]
      rfl
    rw [h] at hread hnext
    have hgrammar : (get >>= fun rest =>
        if rest.isEmpty || (inBlock && nextIs .rightBrace rest) then yes' else no')
          ((marks tokens).drop c.index) =
        (if inBlock && decide (token.kind = .symbol .rightBrace) then yes' else no')
          ((marks tokens).drop c.index) := by
      rw [Parser.bind_apply, Parser.get_apply]
      simp only [hcons, hnext, Bool.false_or, Option.any_some]
    by_cases hlast : (inBlock && decide (token.kind = .symbol .rightBrace)) = true
    · rw [if_pos hlast] at hgrammar
      exact .onward (j := c.index) hyes
        ((bind_of_done hread _).trans (by rw [if_pos hlast]; rfl)) hgrammar
    · rw [if_neg hlast] at hgrammar
      exact .onward (j := c.index) (hno (lt_length_of_getElem? h))
        ((bind_of_done hread _).trans (by rw [if_neg hlast]; rfl)) hgrammar

section

variable {n rounds : Nat} {deeper : Deeper} (hi : deeper.Reads tokens n)
  (hrounds : tokens.length < rounds)
include hi hrounds

/-- Every round but the last takes a statement, and so a token. -/
theorem statements_reads (hn : c.nesting = n) (hc : c.index ≤ tokens.length) (inBlock : Bool)
    {more turns : Nat} (hmore : tokens.length - c.index ≤ more)
    (hturns : tokens.length - c.index < turns) (done : List Stmt) :
    (statements rounds deeper inBlock turns done).ReadsAs tokens c c.index
      (TwinScript.statements tokens.length (grammarAt tokens n) c.context inBlock more done) := by
  induction turns generalizing c more done with
  | zero => exact absurd hturns (Nat.not_lt_zero _)
  | succ turns ih =>
    have hround (more : Nat) (hmore : tokens.length - c.index ≤ more + 1) :
        (statements rounds deeper inBlock (turns + 1) done).ReadsAs tokens c c.index
          (TwinScript.statements tokens.length (grammarAt tokens n) c.context inBlock (more + 1)
            done) := by
      unfold statements TwinScript.statements
      apply (skipSemicolons_reads hc (Nat.lt_of_le_of_lt (Nat.sub_le _ _) hrounds)).bind
      intro _ i hless hlength
      refine atEnd_bind inBlock (.pure _ hless hlength) fun hinside => ?_
      apply (statement_reads hi hrounds (c.moved i) hn hlength).bind
      intro next j hnext hj
      rw [Cursor.index_moved] at hnext
      have hfewer : tokens.length - j ≤ more ∧ tokens.length - j < turns ∧ c.index ≤ j := by omega
      exact (ih (c := c.moved j) hn hj hfewer.1 hfewer.2.1 _).mono hfewer.2.2
    cases more with
    | zero =>
      -- without a round and without tokens the grammar has the answer of one round more
      refine .onward (j := c.index) (hround 0 (Nat.le_succ_of_le hmore)) rfl ?_
      rw [drop_marks_of_none (getElem?_eq_none_of_sub_le hmore)]
      rfl
    | succ more => exact hround more hmore

theorem blockContents_reads : (blockContents rounds deeper).Progresses tokens n
    (TwinScript.block tokens.length (grammarAt tokens n)) := by
  intro c hn hc
  have hless : tokens.length - c.index < rounds := Nat.lt_of_le_of_lt (Nat.sub_le _ _) hrounds
  apply (statements_reads hi hrounds hn hc true (Nat.sub_le _ _) hless []).bind
  intro body i hbody hlength
  apply (expect_reads .rightBrace _).bind
  exact fun _ j hclosed hlast => .pure body (Nat.le_trans (Nat.succ_le_succ hbody) hclosed) hlast

end

/-! ## Levels -/

/-- What is one level further in fails beyond the limit, and reads as its body does below it. -/
theorem nested_reads {p : Descent α} {q : Parser α} {least : Nat}
    (hfull : maxNesting ≤ c.nesting → q = TwinScript.failNext .nestingTooDeep)
    (hbody : c.nesting < maxNesting →
      p.ReadsAs tokens { c with nesting := c.nesting + 1 } least q) :
    (nested p).ReadsAs tokens c least q := by
  have hread : nested p tokens c = _ := cursor_bind _
  rw [ite_apply] at hread
  by_cases hlimit : maxNesting ≤ c.nesting
  · rw [if_pos hlimit] at hread
    rw [hfull hlimit]
    exact .onward (j := c.index) (.failNext _) hread rfl
  · rw [if_neg hlimit] at hread
    refine .onward (j := c.index) (.within ?_ ?_ (hbody (Nat.lt_of_not_le hlimit))) hread rfl
    · rfl
    · exact fun _ => rfl

theorem grammarAt_of_full {n : Nat} (h : maxNesting ≤ n) : grammarAt tokens n = .full := by
  unfold grammarAt
  rw [Nat.sub_eq_zero_of_le h]
  rfl

theorem grammarAt_of_room {n : Nat} (h : n < maxNesting) :
    grammarAt tokens n =
      { expression := TwinScript.expression tokens.length (grammarAt tokens (n + 1))
        operand := TwinScript.unary tokens.length (grammarAt tokens (n + 1))
        block := TwinScript.block tokens.length (grammarAt tokens (n + 1)) } := by
  have hroom : maxNesting - n = maxNesting - (n + 1) + 1 := by omega
  unfold grammarAt
  rw [hroom]
  rfl

theorem reads_of_bodies {deeper : Deeper} {n : Nat}
    (hlogicOr : n < maxNesting → deeper.logicOr.Progresses tokens (n + 1) fun _ =>
      TwinScript.expression tokens.length (grammarAt tokens (n + 1)))
    (hunary : n < maxNesting → deeper.unary.Progresses tokens (n + 1) fun _ =>
      TwinScript.unary tokens.length (grammarAt tokens (n + 1)))
    (hblock : n < maxNesting → deeper.blockContents.Progresses tokens (n + 1)
      (TwinScript.block tokens.length (grammarAt tokens (n + 1)))) :
    deeper.Reads tokens n where
  expression := by
    rintro c rfl hc
    refine nested_reads (fun hfull => by rw [grammarAt_of_full hfull]; rfl) fun hroom => ?_
    rw [grammarAt_of_room hroom]
    exact hlogicOr hroom { c with nesting := c.nesting + 1 } rfl hc
  operand := by
    rintro c rfl hc
    refine nested_reads (fun hfull => by rw [grammarAt_of_full hfull]; rfl) fun hroom => ?_
    rw [grammarAt_of_room hroom]
    exact hunary hroom { c with nesting := c.nesting + 1 } rfl hc
  block := by
    rintro c rfl hc
    refine nested_reads (fun hfull => by rw [grammarAt_of_full hfull]; rfl) fun hroom => ?_
    rw [grammarAt_of_room hroom]
    exact hblock hroom { c with nesting := c.nesting + 1 } rfl hc

/-- How deep the productions nest: each level further in has one level less to go, until the limit
is reached, where nothing is entered. -/
theorem deeper_reads {rounds : Nat} (hrounds : tokens.length < rounds) {levels n : Nat}
    (hlevels : maxNesting - n ≤ levels) : (deeper rounds levels).Reads tokens n := by
  induction levels generalizing n with
  | zero =>
    have hfull : ¬ n < maxNesting := by omega
    exact reads_of_bodies (absurd · hfull) (absurd · hfull) (absurd · hfull)
  | succ levels ih =>
    have hinside : (deeper rounds levels).Reads tokens (n + 1) := ih (by omega)
    exact reads_of_bodies (fun _ => logicOr_reads hinside hrounds)
      (fun _ => unary_reads hinside hrounds) fun _ => blockContents_reads hinside hrounds

theorem program_reads {fuel : Nat} (hfuel : tokens.length + maxNesting < fuel) :
    (program fuel).ReadsAs tokens .start 0
      (TwinScript.program tokens.length (grammarWithin tokens.length maxNesting)) := by
  have hrounds : tokens.length < fuel := by omega
  have hlevels : maxNesting - Cursor.start.nesting ≤ fuel := by omega
  exact statements_reads (deeper_reads hrounds hlevels) hrounds rfl (Nat.zero_le _) false
    (Nat.sub_le _ _) hrounds []

end Descent

/-! ## The descent over all tokens -/

/-- Every production ends among the tokens, wherever it is entered. -/
theorem Rule.reads (r : Rule) {fuel : Nat} (hfuel : tokens.length + maxNesting < fuel)
    (hentered : r.entered ≤ c.index) (hc : c.index ≤ tokens.length) :
    ∃ q : Parser r.Tree, (r.descend fuel).ReadsAs tokens c (c.index + r.least) q := by
  have hrounds : tokens.length < fuel := by omega
  have hi : (Descent.deeper fuel fuel).Reads tokens c.nesting :=
    Descent.deeper_reads hrounds (by omega)
  have hkeyword (hpos : 1 ≤ c.index) : tokens[c.index - 1]? = some tokens[c.index - 1] :=
    List.getElem?_eq_getElem (Nat.lt_of_lt_of_le (Nat.sub_lt hpos Nat.one_pos) hc)
  cases r with
  | statement => exact ⟨_, Descent.statement_reads hi hrounds c rfl hc⟩
  | assignment => exact ⟨_, Descent.assignment_reads hi c rfl hc⟩
  | loopControl k word =>
    have hzero := Nat.ne_of_gt hentered
    exact ⟨_, Descent.loopControl_reads hzero (hkeyword hentered) k word hc⟩
  | conditional => exact ⟨_, Descent.conditional_reads hi c rfl hc⟩
  | loop =>
    have hzero := Nat.ne_of_gt hentered
    exact ⟨_, Descent.loop_reads hi hzero (hkeyword hentered) rfl hc⟩
  | function => exact ⟨_, Descent.function_reads hi hrounds c rfl hc⟩
  | functionBody => exact ⟨_, Descent.functionBody_reads hi c rfl hc⟩
  | returning =>
    have hzero := Nat.ne_of_gt hentered
    exact ⟨_, Descent.returning_reads hi hzero (hkeyword hentered) rfl hc⟩
  | body => exact ⟨_, Descent.body_reads hi c rfl hc⟩
  | block => exact ⟨_, hi.block c rfl hc⟩
  | blockContents => exact ⟨_, Descent.blockContents_reads hi hrounds c rfl hc⟩
  | expression => exact ⟨_, hi.expression c rfl hc⟩
  | logicOr => exact ⟨_, Descent.logicOr_reads hi hrounds c rfl hc⟩
  | logicAnd => exact ⟨_, Descent.logicAnd_reads hi hrounds c rfl hc⟩
  | equality => exact ⟨_, Descent.equality_reads hi hrounds c rfl hc⟩
  | comparison => exact ⟨_, Descent.comparison_reads hi hrounds c rfl hc⟩
  | term => exact ⟨_, Descent.term_reads hi hrounds c rfl hc⟩
  | factor => exact ⟨_, Descent.factor_reads hi hrounds c rfl hc⟩
  | unary => exact ⟨_, Descent.unary_reads hi hrounds c rfl hc⟩
  | call => exact ⟨_, Descent.call_reads hi hrounds c rfl hc⟩
  | finishCall callee => exact ⟨_, Descent.finishCall_reads hi hrounds callee c rfl hc⟩
  | primary => exact ⟨_, Descent.primary_reads hi c rfl hc⟩

/-- **The descent ends, and stays inside the tokens**, whatever they are. Over all of them it has the
program of the grammar, and has taken every token, or the error of the grammar. Wherever one of its
productions is entered among them, it ends, never looks back at a token that does not exist, and has
in the end what surrounded it in the beginning; if it succeeds it has moved on, and not past the end.
What `for`, `break`, `continue` and `return` begin is entered behind that keyword and measured from
it; behind the last three nothing more need be taken. -/
theorem descent_stays_inside {tokens : List Token} {fuel : Nat}
    (hfuel : tokens.length + maxNesting < fuel) :
    ((∃ program, parse tokens = .ok program ∧
        Descent.program fuel tokens .start =
          .done program (Cursor.start.moved tokens.length)) ∨
      ∃ e i, parse tokens = .error e ∧
        Descent.program fuel tokens .start = .failed e (Cursor.start.moved i)) ∧
    ∀ (r : Rule) (c : Cursor), r.entered ≤ c.index → c.index ≤ tokens.length →
      (∃ tree i, r.descend fuel tokens c = .done tree (c.moved i) ∧
        c.index - r.entered < i ∧ c.index + r.least ≤ i ∧ i ≤ tokens.length) ∨
      ∃ e i, r.descend fuel tokens c = .failed e (c.moved i) := by
  constructor
  · rcases Descent.program_reads hfuel with ⟨program, i, hdone, hgrammar, -, hi⟩ |
      ⟨e, i, hfailed, hgrammar⟩
    · left
      have hall := statements_left_eq_nil (grammarWithin_takes tokens.length maxNesting)
        ⟨false, false⟩ (Nat.le_of_eq (length_marks tokens)) hgrammar
      rw [List.drop_eq_nil_iff, length_marks] at hall
      obtain rfl := Nat.le_antisymm hi hall
      exact ⟨program, parse_eq_ok.mpr ⟨_, hgrammar⟩, hdone⟩
    · exact .inr ⟨e, i, parse_eq_error.mpr hgrammar, hfailed⟩
  · intro r c hentered hc
    obtain ⟨q, hreads⟩ := r.reads hfuel hentered hc
    rcases hreads with ⟨tree, i, hdone, -, hless, hlength⟩ | ⟨e, i, hfailed, -⟩
    · have htakes := r.entered_add_least_pos
      have hbegun : c.index - r.entered < i := by omega
      exact .inl ⟨tree, i, hdone, hbegun, hless, hlength⟩
    · exact .inr ⟨e, i, hfailed⟩

/-- The operand of the minus is missing. The statement before it is taken, and the error comes behind
the end. -/
theorem descent_stays_inside_of_missing_operand :
    let tokens : List Token := [⟨.keyword .forWord, "", ⟨9, 9⟩⟩, ⟨.symbol .leftBrace, "", ⟨9, 9⟩⟩,
      ⟨.keyword .breakWord, "", ⟨4, 4⟩⟩, ⟨.symbol .semicolon, "", ⟨4, 4⟩⟩,
      ⟨.symbol .rightBrace, "", ⟨1, 1⟩⟩, ⟨.symbol .minus, "", ⟨1, 1⟩⟩]
    tokens.length + maxNesting < 263 ∧
    (∃ e i, parse tokens = .error e ∧ e.token? = none ∧
      Descent.program 263 tokens .start = .failed e (Cursor.start.moved i)) ∧
    ∃ tree i, Rule.statement.descend 263 tokens .start = .done tree (Cursor.start.moved i) ∧
      0 < i ∧ i ≤ tokens.length := by
  intro tokens
  have hfuel : tokens.length + maxNesting < 263 := by decide
  obtain ⟨hprogram, hrules⟩ := descent_stays_inside hfuel
  have hparse : parse tokens = .error ⟨.unexpectedToken, none⟩ := rfl
  have hstatement : ∃ tree c, Rule.statement.descend 263 tokens .start = .done tree c := ⟨_, _, rfl⟩
  refine ⟨hfuel, ?_, ?_⟩
  · rcases hprogram with ⟨program, hok, -⟩ | ⟨e, i, herror, hfailed⟩
    · cases hparse.symm.trans hok
    · cases hparse.symm.trans herror
      exact ⟨_, i, hparse, rfl, hfailed⟩
  · obtain ⟨tree, c, hdone⟩ := hstatement
    rcases hrules .statement .start (Nat.zero_le _) (Nat.zero_le _) with ⟨tree', i, hread, hless⟩ |
      ⟨e, i, hfailed⟩
    · exact ⟨tree', i, hread, hless.1, hless.2.2⟩
    · cases hdone.symm.trans hfailed

end TwinScript
