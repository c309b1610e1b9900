import TwinScript.Proofs.Syntax.ReadBack.Programs

/-!
# Operators between operands

A row of operands with operators between them, all on one line, is one expression. The grammar reads
it level by level, and each level in a loop that groups from the left. The tree that comes out is
the one that splits the row at the rightmost of its weakest operators, and the rows on both sides by
the same rule (`Groups`). Prefix operators belong to their operand alone.

* `Groups.unique`: the rule leaves no choice.
* `Operand.reads`: an operand is read with its prefix operators, each of which nests one level
  deeper.
* `operatorsOn_link`, `operatorsOn_groups`: a round of the loop of one level, and the loop, which
  keeps what it has read grouped by the rule.
* `binary_readsRow`: so all levels together group a row by the rule.
* `operators_group_by_precedence`: the result for programs.
-/

namespace TwinScript

/-! ## Rows of operands -/

/-- How tightly the binary operators bind: the greater, the tighter. -/
def Symbol.precedence? : Symbol → Option Nat
  | orOr => some 0
  | andAnd => some 1
  | equalEqual | bangEqual => some 2
  | less | lessEqual | greater | greaterEqual => some 3
  | plus | minus => some 4
  | star | slash | percent => some 5
  | _ => none

/-- The token writes a literal or is a name, and the expression is what it stands for. -/
inductive IsAtom : Token → Expr → Prop
  | literal {t : Token} {value : Literal} (h : value.kind? = some t.kind) :
      IsAtom t (.literal t.pos value)
  | name {t : Token} {name : String} (h : t.kind = .identifier name) : IsAtom t (.var t.pos name)

/-- A literal or a name, with prefix operators before it. -/
structure Operand where
  /-- The prefix operators. -/
  signs : List Token
  /-- The literal or the name. -/
  atom : Token
  /-- What it stands for. -/
  value : Expr
  /-- Only these operators are prefix operators. -/
  signs_prefix : ∀ t ∈ signs, ∃ s ∈ unaryOperators, t.kind = .symbol s
  /-- Each of them nests one level deeper, inside an expression. -/
  signs_few : signs.length ≤ 255
  /-- It stands for that. -/
  isAtom : IsAtom atom value

/-- The tokens of an operand. -/
def Operand.tokens (a : Operand) : List Token := a.signs ++ [a.atom]

/-- An operand as an expression: the first prefix operator is applied last. -/
def Operand.tree (a : Operand) : Expr :=
  a.signs.foldr (fun sign e => .unary sign.pos sign.kind e) a.value

/-- A binary operator, with the operand behind it. -/
structure Link where
  /-- The token of the operator. -/
  sign : Token
  /-- The operator. -/
  op : Symbol
  /-- How tightly it binds. -/
  precedence : Nat
  /-- The operand. -/
  operand : Operand
  /-- The token is that of the operator. -/
  sign_kind : sign.kind = .symbol op
  /-- The operator is a binary operator, and binds so tightly. -/
  precedence_eq : op.precedence? = some precedence

/-- The tokens of an operator and the operand behind it. -/
def Link.tokens (x : Link) : List Token := x.sign :: x.operand.tokens

/-- The tokens of a row. -/
def rowTokens (first : Operand) (links : List Link) : List Token :=
  first.tokens ++ links.flatMap Link.tokens

/-- **The rule.** A single operand is its tree. A row with operators is applied to the rightmost of
the weakest of them: none before it is weaker, and all behind it are tighter. -/
inductive Groups : Expr → List Link → Expr → Prop
  | single (e : Expr) : Groups e [] e
  | split {first left right : Expr} {before behind : List Link} {root : Link}
      (hbefore : ∀ x ∈ before, root.precedence ≤ x.precedence)
      (hbehind : ∀ x ∈ behind, root.precedence < x.precedence)
      (hleft : Groups first before left) (hright : Groups root.operand.tree behind right) :
      Groups first (before ++ root :: behind) (.binary root.sign.pos root.sign.kind left right)

/-! ## The rule leaves no choice -/

/-- The rightmost of the weakest operators is at one place only. -/
theorem rightmost_weakest_unique {before before' behind behind' : List Link} {root root' : Link}
    (hrow : before ++ root :: behind = before' ++ root' :: behind')
    (hbefore : ∀ x ∈ before, root.precedence ≤ x.precedence)
    (hbehind : ∀ x ∈ behind, root.precedence < x.precedence)
    (hbefore' : ∀ x ∈ before', root'.precedence ≤ x.precedence)
    (hbehind' : ∀ x ∈ behind', root'.precedence < x.precedence) :
    before = before' ∧ root = root' ∧ behind = behind' := by
  rcases List.append_eq_append_iff.mp hrow with ⟨mid, hmid, hrest⟩ | ⟨mid, hmid, hrest⟩
  · cases mid with
    | nil =>
      obtain ⟨rfl, rfl⟩ := List.cons.inj hrest
      exact ⟨by simpa using hmid.symm, rfl, rfl⟩
    | cons x mid =>
      obtain ⟨rfl, rfl⟩ := List.cons.inj hrest
      have hlow := hbefore' root (by simp [hmid])
      have hhigh := hbehind root' (by simp)
      omega
  · cases mid with
    | nil =>
      obtain ⟨rfl, rfl⟩ := List.cons.inj hrest
      exact ⟨by simpa using hmid, rfl, rfl⟩
    | cons x mid =>
      obtain ⟨rfl, rfl⟩ := List.cons.inj hrest
      have hlow := hbefore root' (by simp [hmid])
      have hhigh := hbehind' root (by simp)
      omega

theorem Groups.unique {first e e' : Expr} {links : List Link} (h : Groups first links e)
    (h' : Groups first links e') : e' = e := by
  induction h generalizing e' with
  | single e =>
    generalize hlinks : ([] : List Link) = links at h'
    cases h' with
    | single => rfl
    | split => simp at hlinks
  | @split first left right before behind root hbefore hbehind _ _ ihLeft ihRight =>
    generalize hlinks : before ++ root :: behind = links at h'
    cases h' with
    | single => simp at hlinks
    | split hbefore' hbehind' hleft' hright' =>
      obtain ⟨rfl, rfl, rfl⟩ :=
        rightmost_weakest_unique hlinks hbefore hbehind hbefore' hbehind'
      rw [ihLeft hleft', ihRight hright']

/-! ## Operands are read -/

theorem IsAtom.opens {m : Mark} {e : Expr} (h : IsAtom m.token e) : OpensExpression [m] := by
  cases h with
  | literal h => exact .literal _ h
  | name h => exact .name h rfl

theorem IsAtom.primary_eq {m : Mark} {e : Expr} (h : IsAtom m.token e) (inner : Inner)
    (rest : List Mark) : primary inner (m :: rest) = .ok (e, rest) := by
  obtain ⟨⟨kind, lexeme, pos⟩, joined⟩ := m
  cases h with
  | literal h =>
    have hvalue := Literal.ofKind?_eq_some.mpr h
    simp only [primary, hvalue]
  | name h =>
    dsimp only at h
    subst h
    rfl

/-- Prefix operators are read as long as there is room for their operand. -/
theorem unary_reads_signs {rounds room : Nat} {signs : List Mark} (hroom : signs.length ≤ room)
    (hsigns : ∀ m ∈ signs, ∃ s ∈ unaryOperators, m.token.kind = .symbol s) {atom : Mark}
    {value : Expr} (hatom : IsAtom atom.token value) {rest : List Mark}
    (hrest : ∀ m, rest.head? = some m → m.continuesWith [.leftParen] = false) :
    unary rounds (grammarWithin rounds room) (signs ++ atom :: rest) =
      .ok (signs.foldr (fun m e => .unary m.token.pos m.token.kind e) value, rest) := by
  induction signs generalizing room with
  | nil =>
    have hcall := hatom.opens.unary_eq rounds (grammarWithin rounds room) rest
    rw [List.singleton_append] at hcall
    rw [List.nil_append, hcall]
    unfold call
    rw [Parser.bind_apply, hatom.primary_eq]
    exact callsOn_stops hrest _ _ _ _
  | cons m signs ih =>
    obtain ⟨⟨s, hs, hkind⟩, hsigns⟩ := List.forall_mem_cons.mp hsigns
    have happlies : m.isOneOf [.bang, .minus] = true := m.isOneOf_of_symbol hkind hs
    obtain ⟨room, rfl⟩ : ∃ k, room = k + 1 := ⟨room - 1, by simp at hroom; omega⟩
    have hoperand : (grammarWithin rounds (room + 1)).operand (signs ++ atom :: rest) = _ :=
      ih (Nat.le_of_succ_le_succ hroom) hsigns
    unfold unary
    rw [Parser.bind_apply, List.cons_append]
    simp only [acceptIf, happlies, if_true, Parser.bind_apply, hoperand]
    rfl

/-- An operand is read off its tokens. -/
theorem Operand.reads (a : Operand) {ms : List Mark} (hms : ms.map (·.token) = a.tokens)
    {rounds room : Nat} (hroom : 255 ≤ room) {rest : List Mark}
    (hrest : ∀ m, rest.head? = some m → m.continuesWith [.leftParen] = false) :
    unary rounds (grammarWithin rounds room) (ms ++ rest) = .ok (a.tree, rest) := by
  obtain ⟨signs, last, rfl, hsigns, hlast⟩ := List.map_eq_append_iff.mp hms
  obtain ⟨atom, rfl, hatom⟩ := List.map_eq_singleton_iff.mp hlast
  have hlength : signs.length = a.signs.length := by
    rw [← hsigns, List.length_map]
  have hfew := a.signs_few
  have hprefix : ∀ m ∈ signs, ∃ s ∈ unaryOperators, m.token.kind = .symbol s := fun m hm =>
    a.signs_prefix m.token (hsigns ▸ List.mem_map_of_mem hm)
  have hvalue : IsAtom atom.token a.value := by
    rw [hatom]
    exact a.isAtom
  rw [List.append_assoc, List.singleton_append,
    unary_reads_signs (by omega) hprefix hvalue hrest, tree, ← hsigns, List.foldr_map]

/-! ## Rows on one line -/

/-- Operators and operands behind another operand. -/
def linkMarks (links : List Link) : List Mark := onLine (links.flatMap Link.tokens)

theorem linkMarks_cons (x : Link) (links : List Link) :
    linkMarks (x :: links) = ⟨x.sign, true⟩ :: (onLine x.operand.tokens ++ linkMarks links) := by
  simp [linkMarks, onLine, Link.tokens]

theorem Link.continuesWith (x : Link) (symbols : List Symbol) :
    Mark.continuesWith symbols ⟨x.sign, true⟩ = symbols.contains x.op := by
  rw [Mark.continuesWith_of_symbol x.sign_kind, Bool.true_or, Bool.and_true]

/-- An operator that is not among the symbols goes on with none of them. -/
theorem linkMarks_stop {links : List Link} {symbols : List Symbol}
    (h : ∀ x, links.head? = some x → x.op ∉ symbols) (m : Mark)
    (hm : (linkMarks links).head? = some m) : m.continuesWith symbols = false := by
  cases links with
  | nil => cases hm
  | cons x links =>
    rw [linkMarks_cons] at hm
    cases hm
    rw [x.continuesWith]
    simpa using h x rfl

/-- No operator is a symbol without precedence. -/
theorem Link.op_ne (x : Link) {s : Symbol} (hs : s.precedence? = none) : x.op ≠ s := by
  rintro rfl
  rw [x.precedence_eq] at hs
  cases hs

theorem Operand.reads_in_row {room : Nat} (hroom : 255 ≤ room) (rounds : Nat) (a : Operand)
    (ms : List Mark) (links : List Link) (hms : ms.map (·.token) = a.tokens) :
    unary rounds (grammarWithin rounds room) (ms ++ linkMarks links) =
      .ok (a.tree, linkMarks links) :=
  a.reads hms hroom (linkMarks_stop fun x _ => by simpa using x.op_ne (s := .leftParen) rfl)

/-! ## Levels -/

/-- The levels are those of the operators of precedence `k` and more, in this order. -/
def LevelsFrom (k : Nat) : List (List Symbol) → Prop
  | [] => ∀ (s : Symbol) (j : Nat), s.precedence? = some j → j < k
  | operators :: tighter =>
    (∀ s, s ∈ operators ↔ s.precedence? = some k) ∧ LevelsFrom (k + 1) tighter

theorem levelsFrom_operatorLevels : LevelsFrom 0 operatorLevels := by
  refine ⟨?_, ?_, ?_, ?_, ?_, ?_, ?_⟩
  all_goals
    intro s
    cases s <;> simp [Symbol.precedence?]

/-- The parser reads an operand and those operators of precedence `k` and more that follow it, `n`
at most, with their operands, and groups them by the rule. -/
def Parser.ReadsRow (p : Parser Expr) (k n : Nat) : Prop :=
  ∀ (a : Operand) (ms : List Mark) (links rest : List Link), ms.map (·.token) = a.tokens →
    (∀ x ∈ links, k ≤ x.precedence) → (∀ x, rest.head? = some x → x.precedence < k) →
    links.length ≤ n →
    ∃ e, p (ms ++ linkMarks (links ++ rest)) = .ok (e, linkMarks rest) ∧ Groups a.tree links e

/-- The operators of a row before the first one that is weaker than `k`. -/
theorem exists_run (k : Nat) (links : List Link) :
    ∃ run later, links = run ++ later ∧ (∀ x ∈ run, k ≤ x.precedence) ∧
      ∀ x, later.head? = some x → x.precedence < k := by
  induction links with
  | nil => exact ⟨[], [], rfl, fun _ h => absurd h List.not_mem_nil, fun _ h => by cases h⟩
  | cons x links ih =>
    by_cases hx : k ≤ x.precedence
    · obtain ⟨run, later, rfl, hrun, hlater⟩ := ih
      exact ⟨x :: run, later, rfl, List.forall_mem_cons.mpr ⟨hx, hrun⟩, hlater⟩
    · refine ⟨[], x :: links, rfl, fun _ h => absurd h List.not_mem_nil, fun y hy => ?_⟩
      cases hy
      omega

/-- What is left of a row is too weak for the next tighter level as well. -/
theorem head?_append_lt {k : Nat} {later rest : List Link}
    (hlater : ∀ x, later.head? = some x → x.precedence < k + 1)
    (hrest : ∀ x, rest.head? = some x → x.precedence < k) :
    ∀ x, (later ++ rest).head? = some x → x.precedence < k + 1 := by
  cases later with
  | nil => exact fun x hx => Nat.lt_succ_of_lt (hrest x hx)
  | cons y later => exact hlater

/-- One round of the loop: an operator of the level is read with what is tighter behind it. -/
theorem operatorsOn_link {operators : List Symbol} {tighter : Parser Expr} {x : Link}
    {links : List Link} {left right : Expr} {rest : List Mark} (hop : x.op ∈ operators)
    (hread : tighter (onLine x.operand.tokens ++ linkMarks links) = .ok (right, rest))
    (more : Nat) :
    operatorsOn operators tighter (more + 1) left (linkMarks (x :: links)) =
      operatorsOn operators tighter more (.binary x.sign.pos x.sign.kind left right) rest := by
  have hgoes := x.continuesWith operators
  rw [List.contains_iff_mem.mpr hop] at hgoes
  rw [linkMarks_cons, operatorsOn, Parser.bind_apply]
  simp only [acceptIf, hgoes, if_true, Parser.bind_apply, hread]

/-- The loop of one level. What it has read is grouped by the rule and has no operator that is
weaker than its own, so each operator of its own that follows is the rightmost of the weakest. -/
theorem operatorsOn_groups {k n : Nat} {operators : List Symbol}
    (hlevel : ∀ s, s ∈ operators ↔ s.precedence? = some k) {tighter : Parser Expr}
    (htighter : tighter.ReadsRow (k + 1) n) {first left : Expr} {done links rest : List Link}
    (hleft : Groups first done left) (hdone : ∀ x ∈ done, k ≤ x.precedence)
    (hlinks : ∀ x ∈ links, k ≤ x.precedence)
    (hhead : ∀ x, links.head? = some x → x.precedence < k + 1)
    (hrest : ∀ x, rest.head? = some x → x.precedence < k) (hn : links.length ≤ n) {more : Nat}
    (hmore : links.length ≤ more) :
    ∃ e, operatorsOn operators tighter more left (linkMarks (links ++ rest)) =
      .ok (e, linkMarks rest) ∧ Groups first (done ++ links) e := by
  induction more generalizing done links left with
  | zero =>
    obtain rfl := List.length_eq_zero_iff.mp (Nat.le_zero.mp hmore)
    rw [List.append_nil]
    exact ⟨left, rfl, hleft⟩
  | succ more ih =>
    cases links with
    | nil =>
      have hstop : ∀ x, rest.head? = some x → x.op ∉ operators := by
        intro x hx hop
        have hk := (hlevel x.op).mp hop
        rw [x.precedence_eq] at hk
        cases hk
        exact Nat.lt_irrefl _ (hrest x hx)
      rw [List.append_nil, List.nil_append]
      exact ⟨left, operatorsOn_stops (linkMarks_stop hstop) _ _ _, hleft⟩
    | cons x links =>
      obtain ⟨hx, hlinks⟩ := List.forall_mem_cons.mp hlinks
      have hk : x.precedence = k := by
        have hlow := hhead x rfl
        omega
      have hop : x.op ∈ operators := by
        rw [hlevel, x.precedence_eq, hk]
      obtain ⟨run, later, rfl, hrun, hlater⟩ := exists_run (k + 1) links
      rw [List.length_cons, List.length_append] at hn hmore
      obtain ⟨right, hread, hright⟩ := htighter x.operand _ run (later ++ rest) (tokens_onLine _)
        hrun (head?_append_lt hlater hrest) (by omega)
      have hgroups : Groups first (done ++ x :: run)
          (.binary x.sign.pos x.sign.kind left right) := by
        refine .split (fun y hy => ?_) (fun y hy => ?_) hleft hright
        · rw [hk]
          exact hdone y hy
        · rw [hk]
          exact hrun y hy
      have hall : ∀ y ∈ done ++ x :: run, k ≤ y.precedence := by
        simp only [List.forall_mem_append, List.forall_mem_cons]
        exact ⟨hdone, hx, fun y hy => Nat.le_of_succ_le (hrun y hy)⟩
      have hlaterAll : ∀ y ∈ later, k ≤ y.precedence := fun y hy =>
        hlinks y (List.mem_append_right _ hy)
      obtain ⟨e, hloop, he⟩ := ih hgroups hall hlaterAll hlater (by omega) (by omega)
      refine ⟨e, ?_, by simpa using he⟩
      rw [List.cons_append, List.append_assoc, operatorsOn_link hop hread]
      exact hloop

/-- All levels of precedence `k` and more. -/
theorem binary_readsRow {operand : Parser Expr}
    (hoperand : ∀ (a : Operand) (ms : List Mark) (links : List Link),
      ms.map (·.token) = a.tokens → operand (ms ++ linkMarks links) = .ok (a.tree, linkMarks links))
    (n : Nat) {k : Nat} {levels : List (List Symbol)} (hlevels : LevelsFrom k levels) :
    (binary n operand levels).ReadsRow k n := by
  induction levels generalizing k with
  | nil =>
    intro a ms links rest hms hlinks _ _
    obtain rfl : links = [] := by
      refine List.eq_nil_iff_forall_not_mem.mpr fun x hx => ?_
      have hlow := hlevels x.op x.precedence x.precedence_eq
      have hhigh := hlinks x hx
      omega
    exact ⟨a.tree, hoperand a ms rest hms, .single _⟩
  | cons operators tighter ih =>
    obtain ⟨hlevel, htighter⟩ := hlevels
    intro a ms links rest hms hlinks hrest hn
    obtain ⟨run, later, rfl, hrun, hlater⟩ := exists_run (k + 1) links
    rw [List.length_append] at hn
    obtain ⟨left, hread, hleft⟩ := ih htighter a ms run (later ++ rest) hms hrun
      (head?_append_lt hlater hrest) (by omega)
    have hlaterAll : ∀ y ∈ later, k ≤ y.precedence := fun y hy =>
      hlinks y (List.mem_append_right _ hy)
    obtain ⟨e, hloop, he⟩ := operatorsOn_groups hlevel (ih htighter) hleft
      (fun y hy => Nat.le_of_succ_le (hrun y hy)) hlaterAll hlater hrest
      (Nat.le_trans (Nat.le_add_left _ _) hn) (Nat.le_trans (Nat.le_add_left _ _) hn)
    refine ⟨e, ?_, he⟩
    unfold binary
    rw [Parser.bind_apply, List.append_assoc, hread]
    exact hloop

/-! ## Rows as programs -/

/-- A row is a statement with no semicolon before it, and neither an assignment nor one that begins
with a keyword or a brace. -/
theorem Operand.begins (a : Operand) {ms : List Mark} (hms : ms.map (·.token) = a.tokens)
    (links : List Link) : nextIs .semicolon (ms ++ linkMarks links) = false ∧
      ∀ rounds inner ctx, statement rounds inner ctx (ms ++ linkMarks links) =
        bareExpression inner (ms ++ linkMarks links) := by
  obtain ⟨signs, last, rfl, hsigns, hlast⟩ := List.map_eq_append_iff.mp hms
  obtain ⟨atom, rfl, hatom⟩ := List.map_eq_singleton_iff.mp hlast
  cases signs with
  | nil =>
    have hvalue : IsAtom atom.token a.value := by
      rw [hatom]
      exact a.isAtom
    have hequal : nextIs .equal (linkMarks links) = false := by
      cases links with
      | nil => rfl
      | cons x links =>
        rw [linkMarks_cons, nextIs_cons, x.sign_kind]
        simpa using x.op_ne (s := .equal) rfl
    exact ⟨hvalue.opens.nextIs_eq_false (by decide) _,
      (hvalue.opens.append hequal).statement_eq⟩
  | cons m signs =>
    obtain ⟨s, hs, hkind⟩ := a.signs_prefix m.token (hsigns ▸ List.mem_cons_self)
    simp only [unaryOperators, List.mem_cons, List.not_mem_nil, or_false] at hs
    rcases hs with rfl | rfl
    · exact ⟨by simp [nextIs_cons, hkind], fun _ _ _ => by simp [statement, hkind]⟩
    · exact ⟨by simp [nextIs_cons, hkind], fun _ _ _ => by simp [statement, hkind]⟩

/-- The marks of a row on one line. -/
theorem exists_marks_row {first : Operand} {links : List Link} {line : Nat}
    (hline : ∀ t ∈ rowTokens first links, t.pos.line = line) :
    ∃ ms, marks (rowTokens first links) = ms ++ linkMarks links ∧
      ms.map (·.token) = first.tokens := by
  obtain ⟨t, ts, hfirst⟩ : ∃ t ts, first.tokens = t :: ts :=
    List.exists_cons_of_ne_nil (by simp [Operand.tokens])
  have hrow : rowTokens first links = t :: (ts ++ links.flatMap Link.tokens) := by
    rw [rowTokens, hfirst, List.cons_append]
  rw [hrow] at hline ⊢
  obtain ⟨ht, hrest⟩ := List.forall_mem_cons.mp hline
  refine ⟨⟨t, false⟩ :: onLine ts, ?_, by rw [List.map_cons, tokens_onLine, hfirst]⟩
  rw [marks, marksAfter_eq_onLine ht hrest, linkMarks, onLine, List.map_append]
  rfl

theorem length_links_lt (first : Operand) (links : List Link) :
    links.length < (rowTokens first links).length := by
  induction links with
  | nil => simp [rowTokens, Operand.tokens]
  | cons x links ih =>
    simp only [rowTokens, List.length_append, List.flatMap_cons, List.length_cons,
      Link.tokens] at ih ⊢
    omega

/-- **Operators group by precedence.** On one line, operands with binary operators between them are
a program of one expression statement, and its tree is the one that the rule demands. -/
theorem operators_group_by_precedence (first : Operand) (links : List Link) {line : Nat}
    (hline : ∀ t ∈ rowTokens first links, t.pos.line = line) :
    ∃ e, parse (rowTokens first links) = .ok [.expr e] ∧ Groups first.tree links e ∧
      ∀ e', Groups first.tree links e' → e' = e := by
  obtain ⟨ms, hmarks, hms⟩ := exists_marks_row hline
  have hlength := length_links_lt first links
  obtain ⟨more, hmore⟩ : ∃ more, (rowTokens first links).length = more + 1 :=
    ⟨(rowTokens first links).length - 1, by omega⟩
  have hoperand := Operand.reads_in_row (Nat.le_refl 255) (more + 1)
  obtain ⟨e, hread, hgroups⟩ := binary_readsRow hoperand (more + 1) levelsFrom_operatorLevels first
    ms links [] hms (fun _ _ => Nat.zero_le _) (fun _ h => by cases h) (by omega)
  rw [List.append_nil] at hread
  refine ⟨e, parse_eq_ok.mpr ⟨[], ?_⟩, hgroups, fun e' he' => hgroups.unique he'⟩
  obtain ⟨hsemicolon, hbare⟩ := first.begins hms links
  have hstatement : statement (more + 1) (grammarWithin (more + 1) maxNesting) ⟨false, false⟩
      (ms ++ linkMarks links) = .ok (.expr e, []) := by
    have hexpression : (grammarWithin (more + 1) maxNesting).expression (ms ++ linkMarks links) =
        .ok (e, []) := hread
    rw [hbare]
    unfold bareExpression
    rw [Parser.bind_apply, hexpression]
    rfl
  have hne : ms ++ linkMarks links ≠ [] := by
    rintro hnil
    rw [(List.append_eq_nil_iff.mp hnil).1] at hms
    simp [Operand.tokens] at hms
  rw [hmore, hmarks]
  unfold program
  rw [statements_succ, dropSemicolons_of_nextIs hsemicolon]
  simp only [List.isEmpty_iff, hne, Bool.false_and, Bool.or_false, if_false, Parser.bind_apply,
    hstatement]
  exact statements_of_semicolons rfl (Nat.zero_le _) _

/-- The difference of a negative number and a product. -/
theorem operators_group_by_precedence_difference :
    let minus : Token := ⟨.symbol .minus, "-", ⟨1, 1⟩⟩
    let one : Token := ⟨.integer 1, "1", ⟨1, 2⟩⟩
    let x : Token := ⟨.identifier "x", "x", ⟨1, 6⟩⟩
    let two : Token := ⟨.integer 2, "2", ⟨1, 10⟩⟩
    let first : Operand := ⟨[minus], one, .literal one.pos (.int 1), by decide, by decide,
      .literal rfl⟩
    let links : List Link :=
      [⟨⟨.symbol .minus, "-", ⟨1, 4⟩⟩, .minus, 4,
          ⟨[], x, .var x.pos "x", by decide, by decide, .name rfl⟩, rfl, rfl⟩,
        ⟨⟨.symbol .star, "*", ⟨1, 8⟩⟩, .star, 5,
          ⟨[], two, .literal two.pos (.int 2), by decide, by decide, .literal rfl⟩, rfl, rfl⟩]
    (∀ t ∈ rowTokens first links, t.pos.line = 1) ∧
      ∃ e, parse (rowTokens first links) = .ok [.expr e] ∧ Groups first.tree links e ∧
        ∀ e', Groups first.tree links e' → e' = e := by
  intro minus one x two first links
  have hline : ∀ t ∈ rowTokens first links, t.pos.line = 1 := by decide
  exact ⟨hline, operators_group_by_precedence first links hline⟩

end TwinScript
