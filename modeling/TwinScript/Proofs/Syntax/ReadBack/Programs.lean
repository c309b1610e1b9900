import TwinScript.Proofs.Syntax.ReadBack.Expressions
import TwinScript.Proofs.Syntax.Programs

/-!
# Programs that are written are read back

Statements tell by their first token how they were written, and what follows them ends every
expression in them. So whatever tokens write a program, the grammar reads that program off them
again, up to positions, or finds it nested too deep.

* `StatementEnds`: what may follow a statement; all statements in a row leave that for the one
  before them (`Stmt.AllWritten.ends`).
* `Stmt.ReadBack`, `Stmt.BlockReadBack`, `Stmt.AllReadBack`: a statement, a block and statements in
  a row are read back.
* `programs_read_back`: the result for whole programs.
-/

namespace TwinScript

/-! ## Where statements begin and end -/

/-- The symbols that a statement may begin with, if it is written with parentheses. -/
def statementOpeners : List Symbol := [.leftParen, .leftBrace]

/-- A statement begins with the tokens: with a word, a name, a literal or an opening symbol. -/
def BeginsStatement (ms : List Mark) : Prop :=
  ∃ m behind, ms = m :: behind ∧ ∀ s, m.token.kind = .symbol s → s ∈ statementOpeners

/-- The tokens end the statement before them: with a semicolon, with the end of the block, or with a
statement on a new line. -/
def StatementEnds (rest : List Mark) : Prop :=
  ∀ m, rest.head? = some m →
    m.token.kind = .symbol .semicolon ∨ m.token.kind = .symbol .rightBrace ∨
      m.joined = false ∧ ∀ s, m.token.kind = .symbol s → s ∈ statementOpeners

namespace StatementEnds

variable {rest : List Mark} (h : StatementEnds rest)
include h

theorem expression : ExpressionEnds rest := by
  intro m hm
  rcases h m hm with hkind | hkind | ⟨hjoined, hkind⟩
  · exact expressionEnds_of_symbol hkind (by decide) [] m rfl
  · exact expressionEnds_of_symbol hkind (by decide) [] m rfl
  · have hline : ∀ s ∈ statementOpeners,
        (continuers.contains s && (false || !s.staysOnLine)) = false := by decide
    by_contra hgoes
    rw [Bool.not_eq_false] at hgoes
    obtain ⟨s, -, hsymbol⟩ := Mark.continuesWith_eq_true hgoes
    rw [m.continuesWith_of_symbol hsymbol, hjoined, hline s (hkind s hsymbol)] at hgoes
    cases hgoes

theorem nextIs_equal : nextIs .equal rest = false := by
  cases rest with
  | nil => rfl
  | cons m behind =>
    rcases h m rfl with hkind | hkind | ⟨-, hkind⟩
    · simp [nextIs_cons, hkind]
    · simp [nextIs_cons, hkind]
    · rw [nextIs_cons, decide_eq_false_iff_not]
      exact fun hequal => absurd (hkind _ hequal) (by decide)

theorem returnsValue_eq_false : returnsValue rest = false := by
  cases rest with
  | nil => rfl
  | cons m behind =>
    rcases h m rfl with hkind | hkind | ⟨hjoined, -⟩
    · simp [returnsValue, nextIs_cons, hkind]
    · simp [returnsValue, nextIs_cons, hkind]
    · simp [returnsValue, hjoined]

end StatementEnds

/-- What begins like an expression, and assigns to no name, is read as an expression. -/
theorem OpensExpression.statement_eq {s : List Mark} (h : OpensExpression s) (rounds : Nat)
    (inner : Inner) (ctx : Context) : statement rounds inner ctx s = bareExpression inner s := by
  cases h with
  | @literal m _ value h =>
    obtain ⟨⟨kind, lexeme, pos⟩, joined⟩ := m
    rcases value with _ | _ | (_ | _) | _ | _ | _ <;> cases h <;> rfl
  | name h hbehind => simp [statement, h, hbehind]
  | paren h => simp [statement, h]

theorem OpensExpression.beginsStatement {ms : List Mark} (h : OpensExpression ms) :
    BeginsStatement ms := by
  cases h with
  | @literal m behind value h =>
    exact ⟨m, behind, rfl, fun s hs => absurd hs (Literal.kind_ne_symbol h s)⟩
  | @name m behind name h _ => exact ⟨m, behind, rfl, fun s hs => by cases h.symm.trans hs⟩
  | @paren m behind h =>
    refine ⟨m, behind, rfl, fun s hs => ?_⟩
    cases h.symm.trans hs
    decide

theorem Stmt.Written.begins {d : Nat} {s : Stmt} {ms : List Mark} (h : s.Written d ms) :
    BeginsStatement ms := by
  have hword {k : Keyword} {m : Mark} (hm : m.token.kind = .keyword k) (behind : List Mark) :
      BeginsStatement (m :: behind) :=
    ⟨m, behind, rfl, fun s hs => by cases hm.symm.trans hs⟩
  cases h with
  | expr _ he => exact he.opens.beginsStatement
  | assign _ hname _ _ => exact ⟨_, _, rfl, fun s hs => by cases hname.symm.trans hs⟩
  | block hbody =>
    cases hbody with
    | braces _ hopening _ _ =>
      refine ⟨_, _, rfl, fun s hs => ?_⟩
      cases hopening.symm.trans hs
      decide
  | ifThen hm _ _ _ => exact hword hm _
  | forEver hm _ => exact hword hm _
  | forWhile hm _ _ _ => exact hword hm _
  | breakLoop hm => exact hword hm _
  | continueLoop hm => exact hword hm _
  | returnNothing hm => exact hword hm _
  | returnValue hm _ _ _ => exact hword hm _
  | function hm _ _ _ _ _ => exact hword hm _

/-- What follows a statement ends it. -/
theorem Stmt.AllWritten.ends {d : Nat} {body : List Stmt} {ns : List Mark}
    (h : Stmt.AllWritten d body ns) {rest : List Mark}
    (hrest : rest = [] ∨ nextIs .rightBrace rest = true) : StatementEnds (ns ++ rest) := by
  intro m hm
  cases h with
  | nil =>
    rcases hrest with rfl | hbrace
    · cases hm
    · obtain ⟨m', behind, rfl, hkind⟩ := Parser.nextIs_eq_true.mp hbrace
      cases hm
      exact .inr (.inl hkind)
  | semicolon hkind _ =>
    cases hm
    exact .inl hkind
  | cons hs hline _ =>
    obtain ⟨m', behind, rfl, hkind⟩ := hs.begins
    cases hm
    exact .inr (.inr ⟨by simpa using hline, hkind⟩)

/-! ## Statements -/

/-- Off tokens that write the statement, it is read up to positions where it may stand. -/
def Stmt.ReadBack (rounds d : Nat) (s : Stmt) (ms : List Mark) : Prop :=
  ∀ (room : Nat) (ctx : Context) (rest : List Mark) (deep : Prop), (room < d → deep) →
    ms.length ≤ rounds → s.Placed ctx → StatementEnds rest →
    ReadsAs deep rest s.Same (statement rounds (grammarWithin rounds room) ctx (ms ++ rest))

/-- Off tokens that write the statements in braces, they are read up to positions behind the opening
brace. -/
def Stmt.BlockReadBack (rounds d : Nat) (body : List Stmt) (bs : List Mark) : Prop :=
  ∃ opening behind, bs = opening :: behind ∧ opening.token.kind = .symbol .leftBrace ∧
    ∀ (room : Nat) (ctx : Context) (rest : List Mark) (deep : Prop), (room < d → deep) →
      behind.length ≤ rounds → Stmt.AllPlaced ctx body →
      ReadsAs deep rest (Stmt.AllSame body)
        ((grammarWithin rounds room).block ctx (behind ++ rest))

/-- Off tokens that write the statements in a row, they are read up to positions behind those that
are read already. -/
def Stmt.AllReadBack (rounds d : Nat) (body : List Stmt) (ms : List Mark) : Prop :=
  ∀ (room : Nat) (ctx : Context) (inBlock : Bool) (more : Nat) (done : List Stmt) (rest : List Mark)
    (deep : Prop), (room < d → deep) → ms.length ≤ rounds → ms.length ≤ more →
    Stmt.AllPlaced ctx body → (rest.isEmpty || (inBlock && nextIs .rightBrace rest)) = true →
    ReadsAs deep rest (fun all => ∃ body', Stmt.AllSame body body' ∧ all = done.reverse ++ body')
      (statements rounds (grammarWithin rounds room) ctx inBlock more done (ms ++ rest))

section

variable {rounds d d' : Nat} {body : List Stmt} {ms bs cs : List Mark}
  {word m opening closing : Mark}

/-- Where braces follow, nothing goes on with an expression. -/
theorem Stmt.BlockReadBack.ends (h : Stmt.BlockReadBack rounds d body bs) (rest : List Mark) :
    ExpressionEnds (bs ++ rest) := by
  obtain ⟨opening, behind, rfl, hopening, -⟩ := h
  exact expressionEnds_of_symbol hopening (by decide) _

theorem Stmt.BlockReadBack.block (h : Stmt.BlockReadBack rounds d body bs) :
    (Stmt.block body).ReadBack rounds d bs := by
  obtain ⟨opening, behind, rfl, hopening, hbody⟩ := h
  intro room ctx rest deep hdeep hrounds hplaced _
  have heq : statement rounds (grammarWithin rounds room) ctx (opening :: behind ++ rest) =
      bareBlock (grammarWithin rounds room) ctx (behind ++ rest) := by
    simp [statement, hopening]
  rw [heq]
  unfold bareBlock
  refine (hbody room ctx rest deep hdeep (Nat.le_of_succ_le hrounds) hplaced).bind fun _ hsame => ?_
  exact .ok (.block hsame)

/-- The body of a conditional or of a loop. -/
theorem Stmt.BlockReadBack.body_reads (h : Stmt.BlockReadBack rounds d body bs) {room : Nat}
    {ctx : Context} {rest : List Mark} {deep : Prop} (hdeep : room < d → deep)
    (hrounds : bs.length ≤ rounds) (hplaced : Stmt.AllPlaced ctx body) :
    ReadsAs deep rest (Stmt.block body).Same
      (TwinScript.body (grammarWithin rounds room) ctx (bs ++ rest)) := by
  obtain ⟨opening, behind, rfl, hopening, hbody⟩ := h
  unfold TwinScript.body
  rw [List.cons_append, expect_bind hopening]
  refine (hbody room ctx rest deep hdeep (Nat.le_of_succ_le hrounds) hplaced).bind fun _ hsame => ?_
  exact .ok (.block hsame)

theorem Expr.Written.readBack_expr {e : Expr} (he : e.Written d ms) (hd : d < d') :
    (Stmt.expr e).ReadBack rounds d' ms := by
  intro room ctx rest deep hdeep hrounds _ hends
  rw [(he.opens.append hends.nextIs_equal).statement_eq]
  unfold bareExpression
  refine (he.reads hd hdeep hrounds hends.expression).bind fun _ hsame => ?_
  exact .ok (.expr hsame)

theorem Expr.Written.readBack_assign {name : String} {value : Expr} {sign : Mark}
    (hvalue : value.Written d ms) (hd : d < d') (hname : m.token.kind = .identifier name)
    (hsign : sign.token.kind = .symbol .equal) :
    (Stmt.assign name value).ReadBack rounds d' (m :: sign :: ms) := by
  intro room ctx rest deep hdeep hrounds _ hends
  simp only [List.length_cons] at hrounds
  have heq : statement rounds (grammarWithin rounds room) ctx (m :: sign :: ms ++ rest) =
      assignment (grammarWithin rounds room) name (ms ++ rest) := by
    simp [statement, hname, nextIs_cons, hsign]
  rw [heq]
  unfold assignment
  refine (hvalue.reads hd hdeep (by omega) hends.expression).bind fun _ hsame => ?_
  exact .ok (.assign name hsame)

theorem Stmt.BlockReadBack.ifThen (h : Stmt.BlockReadBack rounds d' body bs) {condition : Expr}
    (hcondition : condition.Written d cs) (hd : d < d')
    (hword : word.token.kind = .keyword .ifWord) :
    (Stmt.ifThen condition (.block body)).ReadBack rounds d' (word :: cs ++ bs) := by
  intro room ctx rest deep hdeep hrounds hplaced _
  simp only [List.length_cons, List.length_append] at hrounds
  have heq : statement rounds (grammarWithin rounds room) ctx (word :: cs ++ bs ++ rest) =
      conditional (grammarWithin rounds room) ctx (cs ++ (bs ++ rest)) := by
    simp [statement, hword]
  rw [heq]
  unfold conditional
  refine (hcondition.reads hd hdeep (by omega) (h.ends rest)).bind fun _ hcondition => ?_
  refine (h.body_reads hdeep (by omega) hplaced).bind fun _ hbody => ?_
  exact .ok (.ifThen hcondition hbody)

/-- A loop, with or without a condition. -/
theorem Stmt.BlockReadBack.forLoop (h : Stmt.BlockReadBack rounds d' body bs)
    {condition : Option Expr} (hword : word.token.kind = .keyword .forWord) (pos : Position)
    (hguard : ∀ room rest deep, (room < d' → deep) → cs.length ≤ rounds →
      ReadsAs deep (bs ++ rest) (Option.Rel Expr.Same condition)
        (loopGuard (grammarWithin rounds room) (cs ++ (bs ++ rest)))) :
    (Stmt.forLoop pos condition (.block body)).ReadBack rounds d' (word :: cs ++ bs) := by
  intro room ctx rest deep hdeep hrounds hplaced _
  simp only [List.length_cons, List.length_append] at hrounds
  have heq : statement rounds (grammarWithin rounds room) ctx (word :: cs ++ bs ++ rest) =
      loop (grammarWithin rounds room) ctx word.token.pos (cs ++ (bs ++ rest)) := by
    simp [statement, hword]
  rw [heq, loop_eq]
  refine (hguard room rest deep hdeep (by omega)).bind fun _ hcondition => ?_
  refine (h.body_reads hdeep (by omega) hplaced).bind fun _ hbody => ?_
  exact .ok (.forLoop trivial hcondition hbody)

/-- Something is read as an expression, and there is one. -/
theorem ReadsAs.some {deep : Prop} {p : Parser Expr} {s rest : List Mark} {e : Expr}
    (h : ReadsAs deep rest e.Same (p s)) :
    ReadsAs deep rest (Option.Rel Expr.Same (Option.some e)) ((Option.some <$> p) s) := by
  rw [Parser.map_eq_bind]
  exact h.bind fun _ hsame => .ok (.some hsame)

theorem Stmt.BlockReadBack.forEver (h : Stmt.BlockReadBack rounds d body bs)
    (hword : word.token.kind = .keyword .forWord) (pos : Position) :
    (Stmt.forLoop pos none (.block body)).ReadBack rounds d (word :: bs) := by
  refine @Stmt.BlockReadBack.forLoop _ _ _ _ [] _ h _ hword pos fun room rest deep _ _ => ?_
  obtain ⟨opening, behind, rfl, hopening, -⟩ := h
  rw [List.nil_append, List.cons_append]
  unfold loopGuard
  rw [nextIs_cons, if_pos (decide_eq_true hopening)]
  exact .ok .none

theorem Stmt.BlockReadBack.forWhile (h : Stmt.BlockReadBack rounds d' body bs) {condition : Expr}
    (hcondition : condition.Written d cs) (hd : d < d')
    (hword : word.token.kind = .keyword .forWord) (pos : Position) :
    (Stmt.forLoop pos (some condition) (.block body)).ReadBack rounds d' (word :: cs ++ bs) := by
  refine h.forLoop hword pos fun room rest deep hdeep hrounds => ?_
  unfold loopGuard
  rw [hcondition.opens.nextIs_eq_false (by decide), if_neg Bool.false_ne_true]
  exact (hcondition.reads hd hdeep hrounds (h.ends rest)).some

/-- `break` and `continue` are read where they may stand. -/
theorem Stmt.readBack_loopControl (k : Keyword) {s : Stmt}
    (heq : ∀ inner ctx rest,
      statement rounds inner ctx (word :: rest) = loopControl ctx word.token k s rest)
    (hplaced : ∀ ctx, s.Placed ctx → ctx.inLoop = true) (hsame : s.Same s) :
    s.ReadBack rounds d [word] := by
  intro room ctx rest deep _ _ hs _
  rw [List.singleton_append, heq]
  unfold loopControl
  rw [if_pos (hplaced ctx hs)]
  exact .ok hsame

/-- A `return` is read where it may stand, with its value if there is one. -/
theorem Stmt.readBack_return {value : Option Expr} (hword : word.token.kind = .keyword .returnWord)
    (hvalue : ∀ room rest deep, (room < d → deep) → ms.length ≤ rounds → StatementEnds rest →
      ReadsAs deep rest (Option.Rel Expr.Same value)
        (returnedValue (grammarWithin rounds room) (ms ++ rest))) :
    (Stmt.returnValue value).ReadBack rounds d (word :: ms) := by
  intro room ctx rest deep hdeep hrounds hplaced hends
  have heq : statement rounds (grammarWithin rounds room) ctx (word :: ms ++ rest) =
      returning (grammarWithin rounds room) ctx word.token (ms ++ rest) := by
    simp [statement, hword]
  have hfunction : ctx.inFunction = true := hplaced
  rw [heq, returning_eq, if_pos hfunction, Parser.map_eq_bind]
  refine (hvalue room rest deep hdeep (Nat.le_of_succ_le hrounds) hends).bind fun _ hsame => ?_
  exact .ok (.returnValue hsame)

theorem Stmt.readBack_returnNothing (hword : word.token.kind = .keyword .returnWord) :
    (Stmt.returnValue none).ReadBack rounds d [word] := by
  refine Stmt.readBack_return hword fun room rest deep _ _ hends => ?_
  unfold returnedValue
  rw [List.nil_append, hends.returnsValue_eq_false, if_neg Bool.false_ne_true]
  exact .ok .none

theorem Expr.Written.readBack_return {value : Expr} (hvalue : value.Written d ms) (hd : d < d')
    (hword : word.token.kind = .keyword .returnWord) (hline : ms.head?.any (·.joined) = true) :
    (Stmt.returnValue (some value)).ReadBack rounds d' (word :: ms) := by
  refine Stmt.readBack_return hword fun room rest deep hdeep hrounds hends => ?_
  have hreturns : returnsValue (ms ++ rest) = true := by
    have hbrace : nextIs .rightBrace (ms ++ rest) = false :=
      hvalue.opens.nextIs_eq_false (by decide) rest
    have hsemicolon : nextIs .semicolon (ms ++ rest) = false :=
      hvalue.opens.nextIs_eq_false (by decide) rest
    obtain ⟨first, more, rfl, -⟩ := hvalue.opens.beginsStatement
    have hjoined : first.joined = true := by simpa using hline
    unfold returnsValue
    rw [hbrace, hsemicolon]
    simp [hjoined]
  unfold returnedValue
  rw [hreturns, if_pos rfl]
  exact (hvalue.reads hd hdeep hrounds hends.expression).some

theorem params_read {deep : Prop} {params : List String} {ps : List Mark}
    (hparams : Separated NameWritten params ps)
    (hclosing : closing.token.kind = .symbol .rightParen) (hrounds : ps.length ≤ rounds)
    (what : String) (rest : List Mark) :
    ReadsAs deep rest (· = params)
      (commaSeparated rounds identifier what (ps ++ closing :: rest)) := by
  have hitem : ∀ name ns m behind, NameWritten name ns → ns.length ≤ rounds →
      (m.token.kind = .symbol .comma ∨ m.token.kind = .symbol .rightParen) →
      ReadsAs deep (m :: behind) (Eq name) (identifier (ns ++ m :: behind)) := by
    rintro name _ m behind ⟨⟨⟨kind, lexeme, pos⟩, joined⟩, rfl, hkind⟩ - -
    cases hkind
    exact .ok rfl
  have hfirst : ∀ name ns behind, NameWritten name ns →
      nextIs .rightParen (ns ++ behind) = false := by
    rintro name _ behind ⟨m, rfl, hkind⟩
    simp [nextIs_cons, hkind]
  refine (commaSeparated_reads hclosing hitem hfirst hparams hrounds hrounds what rest).mono
    fun names hnames => ?_
  rw [List.forall₂_eq_eq_eq] at hnames
  exact hnames.symm

theorem Stmt.BlockReadBack.function (h : Stmt.BlockReadBack rounds d body bs) {name : String}
    {params : List String} {ps : List Mark} (hword : word.token.kind = .keyword .fnWord)
    (hname : m.token.kind = .identifier name)
    (hopening : opening.token.kind = .symbol .leftParen)
    (hparams : Separated NameWritten params ps)
    (hclosing : closing.token.kind = .symbol .rightParen) :
    (Stmt.function name params body).ReadBack rounds d
      (word :: m :: opening :: ps ++ closing :: bs) := by
  obtain ⟨brace, behind, rfl, hbrace, hbody⟩ := h
  intro room ctx rest deep hdeep hrounds hplaced _
  simp only [List.length_cons, List.length_append] at hrounds
  have heq : statement rounds (grammarWithin rounds room) ctx
        (word :: m :: opening :: ps ++ closing :: brace :: behind ++ rest) =
      TwinScript.function rounds (grammarWithin rounds room)
        (m :: opening :: (ps ++ closing :: brace :: (behind ++ rest))) := by
    simp [statement, hword]
  have hidentifier : ReadsAs deep (opening :: (ps ++ closing :: brace :: (behind ++ rest)))
      (· = name) (identifier (m :: opening :: (ps ++ closing :: brace :: (behind ++ rest)))) := by
    obtain ⟨⟨kind, lexeme, pos⟩, joined⟩ := m
    cases hname
    exact .ok rfl
  rw [heq]
  unfold TwinScript.function
  refine hidentifier.bind fun name' hname' => ?_
  rw [expect_bind hopening]
  refine (params_read hparams hclosing (by omega) _ _).bind fun params' hparams' => ?_
  rw [expect_bind hbrace, hname', hparams']
  refine (hbody room _ rest deep hdeep (by omega) hplaced).bind fun _ hsame => ?_
  exact .ok (.function name params hsame)

/-- Braces are one level. -/
theorem Stmt.AllReadBack.braces (h : Stmt.AllReadBack rounds d body ms) (hd : d < d')
    (hopening : opening.token.kind = .symbol .leftBrace)
    (hclosing : closing.token.kind = .symbol .rightBrace) :
    Stmt.BlockReadBack rounds d' body (opening :: ms ++ [closing]) := by
  refine ⟨opening, ms ++ [closing], rfl, hopening, ?_⟩
  intro room ctx rest deep hdeep hrounds hplaced
  rw [List.length_append] at hrounds
  rw [List.append_assoc, List.singleton_append]
  cases room with
  | zero => exact .inr ⟨hdeep (by omega), _, rfl⟩
  | succ room =>
    have hend : ((closing :: rest).isEmpty ||
        (true && nextIs .rightBrace (closing :: rest))) = true := by
      simp [nextIs_cons, hclosing]
    have hbody := h room ctx true rounds [] (closing :: rest) deep (fun hroom => hdeep (by omega))
      (by omega) (by omega) hplaced hend
    refine hbody.bind ?_
    rintro _ ⟨body', hsame, rfl⟩
    rw [expect_bind hclosing]
    exact .ok hsame

/-- Statements end with the text or with the closing brace of their block. -/
theorem end_of_statements {inBlock : Bool} {rest : List Mark}
    (hend : (rest.isEmpty || (inBlock && nextIs .rightBrace rest)) = true) :
    rest = [] ∨ nextIs .rightBrace rest = true := by
  rw [Bool.or_eq_true, List.isEmpty_iff, Bool.and_eq_true] at hend
  exact hend.imp_right And.right

theorem Stmt.allReadBack_nil : Stmt.AllReadBack rounds d [] [] := by
  intro room ctx inBlock more done rest deep _ _ _ _ hend
  have hdrop : dropSemicolons rest = rest := by
    rcases end_of_statements hend with rfl | hbrace
    · rfl
    · obtain ⟨m, behind, rfl, hkind⟩ := Parser.nextIs_eq_true.mp hbrace
      simp [dropSemicolons, hkind]
  rw [List.nil_append]
  cases more with
  | zero => exact .ok ⟨[], .nil, (List.append_nil _).symm⟩
  | succ more =>
    rw [statements_succ, hdrop, if_pos hend]
    exact .ok ⟨[], .nil, (List.append_nil _).symm⟩

theorem Stmt.AllReadBack.semicolon (h : Stmt.AllReadBack rounds d body ms)
    (hm : m.token.kind = .symbol .semicolon) : Stmt.AllReadBack rounds d body (m :: ms) := by
  intro room ctx inBlock more done rest deep hdeep hrounds hmore hplaced hend
  obtain ⟨more, rfl⟩ : ∃ k, more = k + 1 := ⟨more - 1, by rw [List.length_cons] at hmore; omega⟩
  have hdrop : dropSemicolons (m :: ms ++ rest) = dropSemicolons (ms ++ rest) := by
    simp [dropSemicolons, hm]
  have hbody := h room ctx inBlock (more + 1) done rest deep hdeep (Nat.le_of_succ_le hrounds)
    (Nat.le_of_succ_le hmore) hplaced hend
  rw [statements_succ] at hbody ⊢
  rwa [hdrop]

/-- A statement is read, and then those behind it, which leave no doubt where it ends. -/
theorem Stmt.AllReadBack.cons {s : Stmt} {ns : List Mark} (hs : s.ReadBack rounds d ms)
    (hrest : Stmt.AllReadBack rounds d body ns) (hbegins : BeginsStatement ms)
    (hends : ∀ rest, rest = [] ∨ nextIs .rightBrace rest = true → StatementEnds (ns ++ rest)) :
    Stmt.AllReadBack rounds d (s :: body) (ms ++ ns) := by
  intro room ctx inBlock more done rest deep hdeep hrounds hmore hplaced hend
  obtain ⟨m, behind, rfl, hsymbols⟩ := hbegins
  simp only [List.length_append, List.length_cons] at hrounds hmore
  obtain ⟨more, rfl⟩ : ∃ k, more = k + 1 := ⟨more - 1, by omega⟩
  have hsemicolon : m.token.kind ≠ .symbol .semicolon := fun h => absurd (hsymbols _ h) (by decide)
  have hbrace : m.token.kind ≠ .symbol .rightBrace := fun h => absurd (hsymbols _ h) (by decide)
  have hdrop : dropSemicolons (m :: behind ++ ns ++ rest) = m :: behind ++ (ns ++ rest) := by
    simp [dropSemicolons, hsemicolon]
  have hgoesOn : ((m :: behind ++ (ns ++ rest)).isEmpty ||
      (inBlock && nextIs .rightBrace (m :: behind ++ (ns ++ rest)))) = false := by
    simp [nextIs_cons, hbrace]
  have hfirst := hs room ctx (ns ++ rest) deep hdeep (by rw [List.length_cons]; omega) hplaced.1
    (hends rest (end_of_statements hend))
  rw [statements_succ, hdrop, hgoesOn, if_neg Bool.false_ne_true]
  refine hfirst.bind fun s' hsame => ?_
  refine (hrest room ctx inBlock more (s' :: done) rest deep hdeep (by omega) (by omega) hplaced.2
    hend).mono ?_
  rintro _ ⟨body', hbody, rfl⟩
  exact ⟨s' :: body', .cons hsame hbody, by rw [List.reverse_cons, List.append_assoc]; rfl⟩

end

mutual

/-- **Statements are read back.** -/
theorem Stmt.Written.readBack (rounds : Nat) : {d : Nat} → {s : Stmt} → {ms : List Mark} →
    s.Written d ms → s.ReadBack rounds d ms
  | _, _, _, .expr hdeep he => he.readBack_expr hdeep
  | _, _, _, .assign hdeep hname hsign hvalue => hvalue.readBack_assign hdeep hname hsign
  | _, _, _, .block hbody => (hbody.readBack rounds).block
  | _, _, _, .ifThen hword hdeep hcondition hbody =>
    (hbody.readBack rounds).ifThen hcondition hdeep hword
  | _, _, _, .forEver hword hbody => (hbody.readBack rounds).forEver hword _
  | _, _, _, .forWhile hword hdeep hcondition hbody =>
    (hbody.readBack rounds).forWhile hcondition hdeep hword _
  | _, _, _, .breakLoop hword => by
    refine Stmt.readBack_loopControl .breakWord (fun inner ctx rest => ?_) (fun _ h => h) .breakLoop
    simp [statement, hword]
  | _, _, _, .continueLoop hword => by
    refine Stmt.readBack_loopControl .continueWord (fun inner ctx rest => ?_) (fun _ h => h)
      .continueLoop
    simp [statement, hword]
  | _, _, _, .returnNothing hword => Stmt.readBack_returnNothing hword
  | _, _, _, .returnValue hword hdeep hvalue hline => hvalue.readBack_return hdeep hword hline
  | _, _, _, .function hword hname hopening hparams hclosing hbody =>
    (hbody.readBack rounds).function hword hname hopening hparams hclosing

theorem Stmt.BlockWritten.readBack (rounds : Nat) : {d : Nat} → {body : List Stmt} →
    {bs : List Mark} → Stmt.BlockWritten d body bs → Stmt.BlockReadBack rounds d body bs
  | _, _, _, .braces hdeep hopening hbody hclosing =>
    (hbody.readBack rounds).braces hdeep hopening hclosing

theorem Stmt.AllWritten.readBack (rounds : Nat) : {d : Nat} → {body : List Stmt} →
    {ms : List Mark} → Stmt.AllWritten d body ms → Stmt.AllReadBack rounds d body ms
  | _, _, _, .nil => Stmt.allReadBack_nil
  | _, _, _, .semicolon hm hrest => (hrest.readBack rounds).semicolon hm
  | _, _, _, .cons hs _ hrest =>
    .cons (hs.readBack rounds) (hrest.readBack rounds) hs.begins fun _ => hrest.ends

end

/-- Tokens that write a program are parsed to it, or refused as nested too deep. -/
theorem Stmt.AllWritten.parses {d : Nat} {body : List Stmt} {tokens : List Token}
    (h : Stmt.AllWritten d body (marks tokens)) (hplaced : Stmt.AllPlaced ⟨false, false⟩ body) :
    (∃ body', parse tokens = .ok body' ∧ Stmt.AllSame body body') ∨
      maxNesting < d ∧ ∃ token?, parse tokens = .error ⟨.nestingTooDeep, token?⟩ := by
  have hlength := Nat.le_of_eq (length_marks tokens)
  have hread := h.readBack tokens.length maxNesting ⟨false, false⟩ false tokens.length [] []
    (maxNesting < d) id hlength hlength hplaced rfl
  rw [List.append_nil] at hread
  rw [parse_eq]
  unfold program
  rcases hread with ⟨read, hread, body', hsame, hall⟩ | ⟨hdeep, token?, hread⟩
  · obtain rfl : read = body' := hall
    rw [hread]
    exact .inl ⟨read, rfl, hsame⟩
  · rw [hread]
    exact .inr ⟨hdeep, token?, rfl⟩

/-- **What is written is read back.** Every program of the grammar whose signals are placed can be
written, as deep as it is nested. Whatever tokens write it, at most so many levels deep, they are
parsed to the same program up to positions; or they are refused as nested too deep, which they are
only if there are more levels than the grammar allows. -/
theorem programs_read_back {program : List Stmt} (hgrammatical : Stmt.AllGrammatical program)
    (hplaced : Stmt.AllPlaced ⟨false, false⟩ program) :
    (∃ tokens, Stmt.AllWritten (Stmt.allDepth program) program (marks tokens)) ∧
      ∀ d tokens, Stmt.AllWritten d program (marks tokens) →
        (∃ program', parse tokens = .ok program' ∧ Stmt.AllSame program program') ∨
          maxNesting < d ∧ ∃ token?, parse tokens = .error ⟨.nestingTooDeep, token?⟩ :=
  ⟨Stmt.exists_tokens hgrammatical, fun _ _ h => h.parses hplaced⟩

/-- The application in parentheses and the call on the next line are read back. -/
theorem programs_read_back_assignment_and_call :
    let program : List Stmt := [.assign "x" (.binary ⟨0, 0⟩ (.symbol .minus)
      (.literal ⟨0, 0⟩ (.int 1)) (.literal ⟨0, 0⟩ (.int 2))),
      .expr (.call ⟨0, 0⟩ (.var ⟨0, 0⟩ "f") [.var ⟨0, 0⟩ "x"])]
    let tokens : List Token := [⟨.identifier "x", "x", ⟨1, 1⟩⟩, ⟨.symbol .equal, "=", ⟨1, 3⟩⟩,
      ⟨.symbol .leftParen, "(", ⟨1, 5⟩⟩, ⟨.integer 1, "1", ⟨1, 6⟩⟩, ⟨.symbol .minus, "-", ⟨1, 8⟩⟩,
      ⟨.integer 2, "2", ⟨1, 10⟩⟩, ⟨.symbol .rightParen, ")", ⟨1, 11⟩⟩,
      ⟨.identifier "f", "f", ⟨2, 1⟩⟩, ⟨.symbol .leftParen, "(", ⟨2, 2⟩⟩,
      ⟨.identifier "x", "x", ⟨2, 3⟩⟩, ⟨.symbol .rightParen, ")", ⟨2, 4⟩⟩,
      ⟨.symbol .semicolon, ";", ⟨2, 5⟩⟩]
    Stmt.AllWritten 2 program (marks tokens) ∧
      ∃ program', parse tokens = .ok program' ∧ Stmt.AllSame program program' := by
  intro program tokens
  have hgrammatical : Stmt.AllGrammatical program :=
    ⟨⟨⟨.minus, by decide, rfl⟩, rfl, rfl⟩, ⟨trivial, trivial, trivial⟩, trivial⟩
  have hplaced : Stmt.AllPlaced ⟨false, false⟩ program := ⟨trivial, trivial, trivial⟩
  have hwritten : Stmt.AllWritten 2 program (marks tokens) := by
    refine @Stmt.AllWritten.cons _ _ _ [_, _, _, _, _, _, _] [_, _, _, _, _] ?_ rfl ?_
    · refine .assign (Nat.lt_succ_self 1) rfl rfl ?_
      exact @Expr.Written.binary 0 1 _ _ _ _ _ _ _ [_] [_] Nat.one_pos rfl (.literal rfl)
        (by decide) rfl (fun _ => rfl) (.literal rfl) rfl
    · refine @Stmt.AllWritten.cons _ _ _ [_, _, _, _] [_] ?_ rfl (.semicolon rfl .nil)
      refine .expr (Nat.lt_succ_self 1) ?_
      exact @Expr.Written.call 0 1 _ _ _ _ _ [_] [_] (Expr.Written 0) (.var rfl) rfl rfl
        (fun _ => Nat.one_pos) (@Separated.cons _ _ _ _ [_] [] (.var rfl) .nil) (fun _ _ h => h) rfl
  refine ⟨hwritten, ?_⟩
  have hread := (programs_read_back hgrammatical hplaced).2 2 tokens hwritten
  exact hread.resolve_right fun h => absurd h.1 (by decide)

end TwinScript
