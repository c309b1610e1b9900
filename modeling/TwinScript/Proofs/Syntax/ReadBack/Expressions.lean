import TwinScript.Proofs.Syntax.Written
import TwinScript.Proofs.Syntax.Layout

/-!
# Expressions that are written are read back

Whatever tokens write an expression, the grammar reads it off them again, up to positions, or finds
it nested too deep. At every decision the next token tells which production was written, and every
repetition ends where the tokens of its production do.

* `ReadsAs`: what a production makes of the tokens that write something; it composes along `do`.
* `Expr.ReadBack`: an expression that calls may follow is read back. The statement leaves open which
  calls follow, so a call is read back if its callee is.
* `Expr.ContentReadBack`: what is in parentheses is read back up to where the expression ends.
-/

namespace TwinScript

/-- The expressions are the same up to positions. -/
abbrev Expr.Same : Expr → Expr → Prop := Expr.Like fun _ _ => True

/-- The statements are the same up to positions. -/
abbrev Stmt.Same : Stmt → Stmt → Prop := Stmt.Like fun _ _ => True

/-- The statements in a row are the same up to positions. -/
abbrev Stmt.AllSame : List Stmt → List Stmt → Prop := Stmt.AllLike fun _ _ => True

/-! ## Reading what is written -/

/-- The tokens are read up to `rest` as something that has the property `P`, or they are nested too
deep; the latter only if `deep`. -/
def ReadsAs {α : Type} (deep : Prop) (rest : List Mark) (P : α → Prop)
    (r : Except ParseError (α × List Mark)) : Prop :=
  (∃ a, r = .ok (a, rest) ∧ P a) ∨ deep ∧ ∃ token?, r = .error ⟨.nestingTooDeep, token?⟩

namespace ReadsAs

variable {α β : Type} {deep : Prop} {rest mid s : List Mark} {P : α → Prop} {Q : β → Prop}

theorem ok {a : α} (h : P a) : ReadsAs deep rest P (.ok (a, rest)) := .inl ⟨a, rfl, h⟩

theorem bind {p : Parser α} {q : α → Parser β} (hp : ReadsAs deep mid P (p s))
    (hq : ∀ a, P a → ReadsAs deep rest Q (q a mid)) : ReadsAs deep rest Q ((p >>= q) s) := by
  rw [Parser.bind_apply]
  rcases hp with ⟨a, ha, hPa⟩ | ⟨hdeep, token?, herror⟩
  · rw [ha]
    exact hq a hPa
  · rw [herror]
    exact .inr ⟨hdeep, token?, rfl⟩

theorem mono {r : Except ParseError (α × List Mark)} {P' : α → Prop} (h : ReadsAs deep rest P r)
    (hP : ∀ a, P a → P' a) : ReadsAs deep rest P' r := by
  rcases h with ⟨a, ha, hPa⟩ | herror
  · exact .inl ⟨a, ha, hP a hPa⟩
  · exact .inr herror

end ReadsAs

theorem nextIs_cons (s : Symbol) (m : Mark) (rest : List Mark) :
    nextIs s (m :: rest) = decide (m.token.kind = .symbol s) := rfl

/-- A symbol that has to come next and does is read. -/
theorem expect_bind {α : Type} {s : Symbol} {m : Mark} (hm : m.token.kind = .symbol s)
    (what : String) (q : Unit → Parser α) (rest : List Mark) :
    (expect s what >>= q) (m :: rest) = q () rest := by
  rw [Parser.bind_apply]
  simp [expect, nextIs_cons, hm]

/-! ## Where expressions end -/

/-- The symbols that go on with an expression. -/
def continuers : List Symbol := .leftParen :: binaryOperators

/-- The tokens do not go on with the expression before them. -/
def ExpressionEnds (rest : List Mark) : Prop :=
  ∀ m, rest.head? = some m → m.continuesWith continuers = false

theorem Mark.continuesWith_of_symbol {m : Mark} {s : Symbol} (hm : m.token.kind = .symbol s)
    (symbols : List Symbol) :
    m.continuesWith symbols = (symbols.contains s && (m.joined || !s.staysOnLine)) := by
  unfold Mark.continuesWith
  rw [hm]

theorem ExpressionEnds.continuesWith {rest : List Mark} (h : ExpressionEnds rest)
    {symbols : List Symbol} (hsymbols : ∀ s ∈ symbols, s ∈ continuers) :
    ∀ m, rest.head? = some m → m.continuesWith symbols = false := by
  intro m hm
  by_contra hgoes
  rw [Bool.not_eq_false] at hgoes
  obtain ⟨s, hs, hkind⟩ := Mark.continuesWith_eq_true hgoes
  have hends := h m hm
  rw [m.continuesWith_of_symbol hkind] at hends hgoes
  rw [Bool.and_eq_true] at hgoes
  simp [hsymbols s hs, hgoes.2] at hends

/-- A symbol that goes on with no expression ends each. -/
theorem expressionEnds_of_symbol {m : Mark} {s : Symbol} (hm : m.token.kind = .symbol s)
    (hs : s ∉ continuers) (rest : List Mark) : ExpressionEnds (m :: rest) := by
  intro m' hm'
  cases hm'
  rw [m.continuesWith_of_symbol hm]
  simp [hs]

/-! ## Operators -/

section

variable {deep : Prop} {rounds : Nat} {operand : Parser Expr} {P Q : Expr → Prop}
  {s s' rest : List Mark} {levels : List (List Symbol)}

/-- An operand is an expression of any levels where no operator follows. -/
theorem binary_reads (hoperand : ReadsAs deep rest P (operand s))
    (hstop : ∀ operators ∈ levels, ∀ m, rest.head? = some m → m.continuesWith operators = false) :
    ReadsAs deep rest P (binary rounds operand levels s) := by
  induction levels with
  | nil => exact hoperand
  | cons operators tighter ih =>
    rw [List.forall_mem_cons] at hstop
    unfold binary
    refine (ih hstop.2).bind fun e he => ?_
    rw [operatorsOn_stops hstop.1]
    exact .ok he

/-- Two operands with an operator between them are an application of it, as no operator belongs to
two levels. -/
theorem binary_applies {op : Symbol} {sign : Mark} (hsign : sign.token.kind = .symbol op)
    (hline : op.staysOnLine = true → sign.joined = true) (hop : op ∈ levels.flatten)
    (hnodup : levels.flatten.Nodup) (hrounds : 0 < rounds)
    (hleft : ReadsAs deep (sign :: s') P (operand s)) (hright : ReadsAs deep rest Q (operand s'))
    (hstop : ∀ operators ∈ levels, ∀ m, rest.head? = some m → m.continuesWith operators = false) :
    ReadsAs deep rest
      (fun e => ∃ l r, P l ∧ Q r ∧ e = .binary sign.token.pos (.symbol op) l r)
      (binary rounds operand levels s) := by
  induction levels with
  | nil => exact absurd hop List.not_mem_nil
  | cons operators tighter ih =>
    rw [List.forall_mem_cons] at hstop
    rw [List.flatten_cons, List.nodup_append] at hnodup
    obtain ⟨-, htighter, hdisjoint⟩ := hnodup
    rw [List.flatten_cons, List.mem_append] at hop
    unfold binary
    by_cases hhere : op ∈ operators
    · have hnone : ∀ operators' ∈ tighter, ∀ m, (sign :: s').head? = some m →
          m.continuesWith operators' = false := by
        intro operators' htight m hm
        cases hm
        have hnot : op ∉ operators' := fun h =>
          hdisjoint op hhere op (List.mem_flatten_of_mem htight h) rfl
        rw [sign.continuesWith_of_symbol hsign]
        simp [hnot]
      have hgoes : sign.continuesWith operators = true := by
        rw [sign.continuesWith_of_symbol hsign]
        cases hstay : op.staysOnLine <;> simp [hhere, hstay, hline]
      obtain ⟨more, rfl⟩ : ∃ more, rounds = more + 1 := ⟨rounds - 1, by omega⟩
      refine (binary_reads hleft hnone).bind fun l hl => ?_
      unfold operatorsOn
      rw [Parser.bind_apply]
      simp only [acceptIf, hgoes, if_true]
      refine (binary_reads hright hstop.2).bind fun r hr => ?_
      rw [operatorsOn_stops hstop.1, hsign]
      exact .ok ⟨l, r, hl, hr, rfl⟩
    · refine (ih (hop.resolve_left hhere) htighter hstop.2).bind fun e he => ?_
      rw [operatorsOn_stops hstop.1]
      exact .ok he

end

/-! ## Lists -/

section

variable {α β : Type} {deep : Prop} {R : α → β → Prop} {write : α → List Mark → Prop}
  {item : Parser β} {n : Nat} {closing : Mark} (hclosing : closing.token.kind = .symbol .rightParen)
  (hitem : ∀ a ms m rest, write a ms → ms.length ≤ n →
    (m.token.kind = .symbol .comma ∨ m.token.kind = .symbol .rightParen) →
    ReadsAs deep (m :: rest) (R a) (item (ms ++ m :: rest)))
include hclosing

/-- Behind an item there is a comma or the closing parenthesis. -/
theorem BehindCommas.next {items : List α} {ms : List Mark} (h : BehindCommas write items ms)
    (rest : List Mark) : ∃ m more, ms ++ closing :: rest = m :: more ∧
      (m.token.kind = .symbol .comma ∨ m.token.kind = .symbol .rightParen) := by
  cases h with
  | nil => exact ⟨closing, rest, rfl, .inr hclosing⟩
  | cons hcomma _ _ => exact ⟨_, _, rfl, .inl hcomma⟩

include hitem

theorem afterCommas_reads {items : List α} {ms : List Mark} (h : BehindCommas write items ms)
    (hn : ms.length ≤ n) (rest : List Mark) {more : Nat} (hmore : ms.length ≤ more)
    {done : List α} {done' : List β} (hdone : List.Forall₂ R done done') :
    ReadsAs deep (closing :: rest) (List.Forall₂ R (done.reverse ++ items))
      (afterCommas item more done' (ms ++ closing :: rest)) := by
  induction h generalizing more done done' with
  | nil =>
    have hstop : nextIs .comma (closing :: rest) = false := by simp [nextIs_cons, hclosing]
    rw [List.nil_append, afterCommas_stops hstop, List.append_nil]
    exact .ok (List.rel_reverse hdone)
  | @cons a items comma ms ns hcomma ha hrest ih =>
    rw [List.length_append, List.length_cons] at hn hmore
    obtain ⟨more, rfl⟩ : ∃ k, more = k + 1 := ⟨more - 1, by omega⟩
    obtain ⟨m, behind, hnext, hm⟩ := hrest.next hclosing rest
    have hitem := hitem a ms m behind ha (by omega) hm
    rw [← hnext] at hitem
    rw [List.cons_append, List.cons_append, List.append_assoc]
    unfold afterCommas
    rw [Parser.bind_apply]
    simp only [accept, nextIs_cons, hcomma, decide_true, if_true, List.tail_cons]
    refine hitem.bind fun b hb => ?_
    have hread := @ih (by omega) more (by omega) _ _ (.cons hb hdone)
    rwa [List.reverse_cons, List.append_assoc] at hread

omit hitem in
theorem commaSeparated_nil (rounds : Nat) (what : String) (rest : List Mark) :
    commaSeparated rounds item what (closing :: rest) = .ok ([], rest) := by
  unfold commaSeparated
  rw [Parser.bind_apply]
  simp [accept, nextIs_cons, hclosing]

/-- Items with commas between them are read up to the closing parenthesis. -/
theorem commaSeparated_reads
    (hfirst : ∀ a ms rest, write a ms → nextIs .rightParen (ms ++ rest) = false)
    {items : List α} {ms : List Mark} (h : Separated write items ms) (hn : ms.length ≤ n)
    {rounds : Nat} (hrounds : ms.length ≤ rounds) (what : String) (rest : List Mark) :
    ReadsAs deep rest (List.Forall₂ R items)
      (commaSeparated rounds item what (ms ++ closing :: rest)) := by
  cases h with
  | nil =>
    rw [List.nil_append, commaSeparated_nil hclosing]
    exact .ok .nil
  | @cons a items ms ns ha hrest =>
    rw [List.length_append] at hn hrounds
    unfold commaSeparated
    rw [Parser.bind_apply]
    obtain ⟨m, behind, hnext, hm⟩ := hrest.next hclosing rest
    have hitem' := hitem a ms m behind ha (by omega) hm
    rw [← hnext] at hitem'
    rw [List.append_assoc]
    simp only [accept, hfirst a ms _ ha]
    refine hitem'.bind fun b hb => ?_
    refine (afterCommas_reads hclosing hitem hrest (by omega) rest (by omega)
      (.cons hb .nil)).bind fun all hall => ?_
    rw [expect_bind hclosing]
    exact .ok hall

end

/-! ## How expressions begin -/

/-- An expression begins with the tokens: with a literal, a parenthesis, or a name that is not
assigned to. -/
inductive OpensExpression : List Mark → Prop
  | literal {m : Mark} {behind : List Mark} (value : Literal)
      (h : value.kind? = some m.token.kind) : OpensExpression (m :: behind)
  | name {m : Mark} {behind : List Mark} {name : String} (h : m.token.kind = .identifier name)
      (hbehind : nextIs .equal behind = false) : OpensExpression (m :: behind)
  | paren {m : Mark} {behind : List Mark} (h : m.token.kind = .symbol .leftParen) :
      OpensExpression (m :: behind)

/-- What is behind an expression does not change how it begins. -/
theorem OpensExpression.append {ms rest : List Mark} (h : OpensExpression ms)
    (hrest : nextIs .equal rest = false) : OpensExpression (ms ++ rest) := by
  cases h with
  | literal value h => exact .literal value h
  | paren h => exact .paren h
  | @name m behind name h hbehind =>
    refine .name h ?_
    cases behind with
    | nil => exact hrest
    | cons m' more => exact hbehind

theorem Expr.Written.opens {d : Nat} {e : Expr} {ms : List Mark} (h : e.Written d ms) :
    OpensExpression ms := by
  induction h with
  | literal hm => exact .literal _ hm
  | var hm => exact .name hm rfl
  | paren _ hopening _ _ _ => exact .paren hopening
  | unary _ hopening _ _ _ _ _ => exact .paren hopening
  | binary _ hopening _ _ _ _ _ _ _ _ => exact .paren hopening
  | call _ hopening _ _ _ _ _ ih =>
    rw [List.append_assoc]
    exact ih.append (by simp [nextIs_cons, hopening])

namespace OpensExpression

variable {ms : List Mark} (h : OpensExpression ms)
include h

/-- No expression begins with a symbol that is not a parenthesis. -/
theorem nextIs_eq_false {s : Symbol} (hs : s ≠ .leftParen) (rest : List Mark) :
    nextIs s (ms ++ rest) = false := by
  cases h with
  | literal value h => simp [nextIs_cons, Literal.kind_ne_symbol h]
  | name h _ => simp [nextIs_cons, h]
  | paren h => simp [nextIs_cons, h, hs.symm]

/-- What begins like this is no application of a prefix operator. -/
theorem unary_eq (rounds : Nat) (inner : Inner) (rest : List Mark) :
    unary rounds inner (ms ++ rest) = call rounds inner (ms ++ rest) := by
  have hnone : ∀ m, (ms ++ rest).head? = some m → m.isOneOf [.bang, .minus] = false := by
    intro m hm
    cases h with
    | literal value h =>
      cases hm
      unfold Mark.isOneOf
      split
      · next s hs => exact absurd hs (Literal.kind_ne_symbol h s)
      · rfl
    | name h _ =>
      cases hm
      simp [Mark.isOneOf, h]
    | paren h =>
      cases hm
      simp [Mark.isOneOf, h]
  unfold unary
  rw [Parser.bind_apply, acceptIf_stops hnone]

end OpensExpression

/-! ## Expressions -/

/-- Off tokens that write the expression, it is read up to positions, whatever follows; and the
calls that follow are read on with the rounds that are left. -/
def Expr.ReadBack (rounds d : Nat) (e : Expr) (ms : List Mark) : Prop :=
  ∀ (room more : Nat) (rest stop : List Mark) (deep : Prop) (P : Expr → Prop),
    (room < d → deep) → ms.length ≤ rounds → ms.length ≤ more →
    (∀ e' left, e.Same e' → more < left + ms.length →
      ReadsAs deep stop P (callsOn rounds (grammarWithin rounds room) left e' rest)) →
    ReadsAs deep stop P ((primary (grammarWithin rounds room) >>=
      callsOn rounds (grammarWithin rounds room) more) (ms ++ rest))

/-- The tokens in parentheses are read as the expression. -/
def Expr.ContentReadBack (rounds d : Nat) (e : Expr) (cs : List Mark) : Prop :=
  ∀ (room : Nat) (rest : List Mark) (deep : Prop), (room < d → deep) → cs.length ≤ rounds →
    ExpressionEnds rest →
    ReadsAs deep rest e.Same (expression rounds (grammarWithin rounds room) (cs ++ rest))

section

variable {rounds d : Nat} {e : Expr} {ms : List Mark}

/-- An expression is read where one level more is nested. -/
theorem Expr.ContentReadBack.inside (h : e.ContentReadBack rounds d ms) {d' room : Nat}
    {deep : Prop} {rest : List Mark} (hd : d < d') (hdeep : room < d' → deep)
    (hrounds : ms.length ≤ rounds) (hends : ExpressionEnds rest) :
    ReadsAs deep rest e.Same ((grammarWithin rounds room).expression (ms ++ rest)) := by
  cases room with
  | zero => exact .inr ⟨hdeep (by omega), _, rfl⟩
  | succ room => exact h room rest deep (fun hroom => hdeep (by omega)) hrounds hends

/-- An operand is read where no call of it follows. -/
theorem Expr.ReadBack.operand (h : e.ReadBack rounds d ms) (hopens : OpensExpression ms)
    {room : Nat} {deep : Prop} {rest : List Mark} (hdeep : room < d → deep)
    (hrounds : ms.length ≤ rounds)
    (hstop : ∀ m, rest.head? = some m → m.continuesWith [.leftParen] = false) :
    ReadsAs deep rest e.Same
      (TwinScript.unary rounds (grammarWithin rounds room) (ms ++ rest)) := by
  rw [hopens.unary_eq]
  refine h room rounds rest rest deep _ hdeep hrounds hrounds fun e' left hsame _ => ?_
  rw [callsOn_stops hstop]
  exact .ok hsame

theorem ExpressionEnds.calls {rest : List Mark} (hends : ExpressionEnds rest) :
    ∀ m, rest.head? = some m → m.continuesWith [.leftParen] = false :=
  hends.continuesWith (by decide)

theorem ExpressionEnds.operators {rest : List Mark} (hends : ExpressionEnds rest) :
    ∀ operators ∈ operatorLevels, ∀ m, rest.head? = some m → m.continuesWith operators = false :=
  fun _ hlevel => hends.continuesWith fun _ hs =>
    List.mem_cons_of_mem _ (List.mem_flatten_of_mem hlevel hs)

theorem Expr.ReadBack.content (h : e.ReadBack rounds d ms) (hopens : OpensExpression ms) :
    e.ContentReadBack rounds d ms :=
  fun _ _ _ hdeep hrounds hends =>
    binary_reads (h.operand hopens hdeep hrounds hends.calls) hends.operators

/-- An application of a prefix operator, without its parentheses. -/
theorem Expr.ReadBack.unary_content (h : e.ReadBack rounds d ms) (hopens : OpensExpression ms)
    {op : Symbol} {sign : Mark} (hop : op ∈ unaryOperators) (hsign : sign.token.kind = .symbol op)
    (pos : Position) :
    (Expr.unary pos (.symbol op) e).ContentReadBack rounds (d + 1) (sign :: ms) := by
  intro room rest deep hdeep hrounds hends
  refine binary_reads ?_ hends.operators
  have hoperand : ReadsAs deep rest e.Same ((grammarWithin rounds room).operand (ms ++ rest)) := by
    cases room with
    | zero => exact .inr ⟨hdeep (by omega), _, rfl⟩
    | succ room =>
      exact h.operand hopens (fun hroom => hdeep (by omega)) (Nat.le_of_succ_le hrounds) hends.calls
  have happlies : sign.isOneOf [.bang, .minus] = true := sign.isOneOf_of_symbol hsign hop
  unfold TwinScript.unary
  rw [Parser.bind_apply, List.cons_append]
  simp only [acceptIf, happlies, if_true]
  refine hoperand.bind fun e' hsame => ?_
  rw [hsign]
  exact .ok (.unary trivial _ hsame)

/-- An application of an operator between operands, without its parentheses. -/
theorem Expr.ReadBack.binary_content {left right : Expr} {ls rs : List Mark}
    (hleft : left.ReadBack rounds d ls) (hright : right.ReadBack rounds d rs)
    (hopensLeft : OpensExpression ls) (hopensRight : OpensExpression rs) {op : Symbol} {sign : Mark}
    (hop : op ∈ binaryOperators) (hsign : sign.token.kind = .symbol op)
    (hline : op.staysOnLine = true → sign.joined = true) (pos : Position) :
    (Expr.binary pos (.symbol op) left right).ContentReadBack rounds d (ls ++ sign :: rs) := by
  intro room rest deep hdeep hrounds hends
  rw [List.length_append, List.length_cons] at hrounds
  have hnodup : operatorLevels.flatten.Nodup := by decide
  have hparen : op ≠ .leftParen := by
    rintro rfl
    exact absurd hop (by decide)
  have hstop : ∀ m, (sign :: (rs ++ rest)).head? = some m →
      m.continuesWith [.leftParen] = false := by
    intro m hm
    cases hm
    rw [sign.continuesWith_of_symbol hsign]
    simp [hparen]
  rw [List.append_assoc, List.cons_append]
  refine (binary_applies hsign hline hop hnodup (by omega)
    (hleft.operand hopensLeft hdeep (by omega) hstop)
    (hright.operand hopensRight hdeep (by omega) hends.calls) hends.operators).mono ?_
  rintro _ ⟨l, r, hl, hr, rfl⟩
  exact .binary trivial _ hl hr

/-- Parentheses are one level, and anything may follow them. -/
theorem Expr.ContentReadBack.inParentheses (h : e.ContentReadBack rounds d ms) {d' : Nat}
    (hd : d < d') {opening closing : Mark} (hopening : opening.token.kind = .symbol .leftParen)
    (hclosing : closing.token.kind = .symbol .rightParen) :
    e.ReadBack rounds d' (opening :: ms ++ [closing]) := by
  intro room more rest stop deep P hdeep hrounds hmore hnext
  rw [List.length_append, List.length_cons] at hrounds
  have hprimary : ReadsAs deep rest e.Same
      (primary (grammarWithin rounds room) (opening :: (ms ++ closing :: rest))) := by
    have hends := expressionEnds_of_symbol hclosing (by decide) rest
    have hcontent := h.inside hd hdeep (by omega) hends
    have heq : primary (grammarWithin rounds room) (opening :: (ms ++ closing :: rest)) =
        parenthesized (grammarWithin rounds room) (ms ++ closing :: rest) := by
      simp [primary, hopening, Literal.ofKind?]
    rw [heq]
    unfold parenthesized
    refine hcontent.bind fun e' hsame => ?_
    rw [expect_bind hclosing]
    exact .ok hsame
  simp only [List.cons_append, List.append_assoc, List.nil_append]
  refine hprimary.bind fun e' hsame => hnext e' more hsame ?_
  rw [List.length_append, List.length_cons]
  omega

section

variable {args : List Expr} {d' : Nat} {write : Expr → List Mark → Prop}
  (hargs : Separated write args ms) (hdeep : args ≠ [] → d < d')
  (hwrite : ∀ e ns, write e ns → e.ContentReadBack rounds d ns ∧ OpensExpression ns)
  {opening closing : Mark} (hopening : opening.token.kind = .symbol .leftParen)
  (hline : opening.joined = true) (hclosing : closing.token.kind = .symbol .rightParen)
include hargs hdeep hwrite hclosing

theorem Expr.args_read {room : Nat} {deep : Prop} (hroom : room < d' → deep)
    (hrounds : ms.length ≤ rounds) (what : String) (rest : List Mark) :
    ReadsAs deep rest (List.Forall₂ Expr.Same args)
      (commaSeparated rounds (grammarWithin rounds room).expression what
        (ms ++ closing :: rest)) := by
  by_cases hnone : args = []
  · subst hnone
    cases hargs
    rw [List.nil_append, commaSeparated_nil hclosing]
    exact .ok .nil
  · have hitem : ∀ e ns m behind, write e ns → ns.length ≤ rounds →
        (m.token.kind = .symbol .comma ∨ m.token.kind = .symbol .rightParen) →
        ReadsAs deep (m :: behind) e.Same
          ((grammarWithin rounds room).expression (ns ++ m :: behind)) := by
      intro e ns m behind he hn hm
      have hends : ExpressionEnds (m :: behind) := by
        rcases hm with hm | hm
        · exact expressionEnds_of_symbol hm (by decide) behind
        · exact expressionEnds_of_symbol hm (by decide) behind
      exact (hwrite e ns he).1.inside (hdeep hnone) hroom hn hends
    have hfirst : ∀ e ns behind, write e ns → nextIs .rightParen (ns ++ behind) = false :=
      fun e ns behind he => (hwrite e ns he).2.nextIs_eq_false (by decide) behind
    exact commaSeparated_reads hclosing hitem hfirst hargs hrounds hrounds what rest

include hopening hline

/-- The calls on a callee are read on with it, one round each. -/
theorem Expr.ReadBack.call {callee : Expr} {cs : List Mark} (hcallee : callee.ReadBack rounds d' cs)
    (pos : Position) :
    (Expr.call pos callee args).ReadBack rounds d' (cs ++ opening :: ms ++ [closing]) := by
  intro room more rest stop deep P hroom hrounds hmore hnext
  simp only [List.length_append, List.length_cons, List.length_nil] at hrounds hmore hnext
  simp only [List.append_assoc, List.cons_append, List.nil_append]
  refine hcallee room more _ stop deep P hroom (by omega) (by omega)
    fun callee' left hsame hleft => ?_
  obtain ⟨left, rfl⟩ : ∃ k, left = k + 1 := ⟨left - 1, by omega⟩
  have hcalls : opening.continuesWith [.leftParen] = true := by
    rw [opening.continuesWith_of_symbol hopening]
    simp [hline]
  have hitems := Expr.args_read hargs hdeep hwrite hclosing hroom (by omega)
    "')' after arguments" rest
  unfold callsOn
  rw [Parser.bind_apply]
  simp only [acceptIf, hcalls, if_true]
  exact hitems.bind fun args' hargs' => hnext _ left (.call trivial hsame hargs') (by omega)

end

end

/-- **Expressions are read back.** -/
theorem Expr.Written.readBack (rounds : Nat) {d : Nat} {e : Expr} {ms : List Mark}
    (h : e.Written d ms) : e.ReadBack rounds d ms := by
  induction h with
  | @literal d pos value m hm =>
    intro room more rest stop deep P hdeep hrounds hmore hnext
    have hvalue : Literal.ofKind? m.token.kind = some value := Literal.ofKind?_eq_some.mpr hm
    have hread : primary (grammarWithin rounds room) ([m] ++ rest) =
        .ok (.literal m.token.pos value, rest) := by
      simp [primary, hvalue]
    rw [Parser.bind_apply, hread]
    exact hnext _ more (.literal trivial (Literal.like_ofKind? hvalue)) (by simp)
  | @var d pos name m hm =>
    intro room more rest stop deep P hdeep hrounds hmore hnext
    have hread : primary (grammarWithin rounds room) ([m] ++ rest) =
        .ok (.var m.token.pos name, rest) := by
      simp [primary, hm, Literal.ofKind?]
    rw [Parser.bind_apply, hread]
    exact hnext _ more (.var trivial name) (by simp)
  | paren hdeep hopening he hclosing ih =>
    exact (ih.content he.opens).inParentheses hdeep hopening hclosing
  | @unary _ _ pos _ _ _ _ _ _ hdeep hopening hop hsign hoperand hclosing ih =>
    exact (ih.unary_content hoperand.opens hop hsign pos).inParentheses hdeep hopening hclosing
  | @binary _ _ pos _ _ _ _ _ _ _ _ hdeep hopening hleft hop hsign hline hright hclosing ihl ihr =>
    exact (ihl.binary_content ihr hleft.opens hright.opens hop hsign hline pos).inParentheses
      hdeep hopening hclosing
  | @call _ _ pos _ _ _ _ _ _ _ _ hopening hline hdeep hargs hwrite hclosing ihcallee ihwrite =>
    exact Expr.ReadBack.call hargs hdeep
      (fun e ns he => ⟨(ihwrite e ns he).content (hwrite e ns he).opens, (hwrite e ns he).opens⟩)
      hopening hline hclosing ihcallee pos

/-- An expression that is part of a statement or of another expression. -/
theorem Expr.Written.reads {rounds d d' : Nat} {e : Expr} {ms : List Mark} (h : e.Written d ms)
    (hd : d < d') {room : Nat} {deep : Prop} (hdeep : room < d' → deep)
    (hrounds : ms.length ≤ rounds) {rest : List Mark} (hends : ExpressionEnds rest) :
    ReadsAs deep rest e.Same ((grammarWithin rounds room).expression (ms ++ rest)) :=
  ((h.readBack rounds).content h.opens).inside hd hdeep hrounds hends

end TwinScript
