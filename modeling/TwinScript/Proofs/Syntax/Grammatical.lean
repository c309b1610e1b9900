import TwinScript.Proofs.Syntax.Taking
import TwinScript.Proofs.Syntax.Written

/-!
# What is parsed is grammatical

The trees that the parser builds are among those that can be written: its values are those that
tokens write, it applies the operators of the grammar only, and gives conditionals and loops blocks
as their bodies.

* `parse_grammatical`: a program that was parsed is grammatical.
* `parse_places`: the positions in it are those of operators, literals, names and loops among the
  tokens.
-/

namespace TwinScript

open TwinScript.Parser (Gives)

/-! ## Lists of trees -/

/-- The list is of the grammar as each of its expressions is. -/
theorem Expr.allGrammatical_iff (es : List Expr) :
    Expr.AllGrammatical es ↔ ∀ e ∈ es, e.Grammatical := by
  induction es with
  | nil => exact ⟨fun _ _ h => (List.not_mem_nil h).elim, fun _ => trivial⟩
  | cons e rest ih =>
    rw [List.forall_mem_cons, ← ih]
    rfl

/-- The list is of the grammar as each of its statements is. -/
theorem Stmt.allGrammatical_iff (body : List Stmt) :
    Stmt.AllGrammatical body ↔ ∀ s ∈ body, s.Grammatical := by
  induction body with
  | nil => exact ⟨fun _ _ h => (List.not_mem_nil h).elim, fun _ => trivial⟩
  | cons s rest ih =>
    rw [List.forall_mem_cons, ← ih]
    rfl

/-! ## Reading lists -/

section

variable {α : Type} {good : α → Prop}

/-- What is good of the items is good of those behind commas, and of those in front of them. -/
theorem afterCommas_gives {item : Parser α} (h : item.Gives good) (more : Nat) {items : List α}
    (hitems : ∀ a ∈ items, good a) :
    (afterCommas item more items).Gives fun as => ∀ a ∈ as, good a := by
  induction more generalizing items with
  | zero => exact Gives.pure (by simpa using hitems)
  | succ more ih =>
    unfold afterCommas
    refine Gives.behind fun found => ?_
    split
    · exact h.bind fun next hnext => ih (List.forall_mem_cons.mpr ⟨hnext, hitems⟩)
    · exact Gives.pure (by simpa using hitems)

/-- A list in parentheses has no items but those that were read. -/
theorem commaSeparated_gives {item : Parser α} (h : item.Gives good) (rounds : Nat)
    (what : String) : (commaSeparated rounds item what).Gives fun as => ∀ a ∈ as, good a := by
  unfold commaSeparated
  refine Gives.behind fun found => ?_
  split
  · exact Gives.pure fun a ha => absurd ha List.not_mem_nil
  · refine h.bind fun first hfirst => ?_
    refine (afterCommas_gives h rounds (by simpa using hfirst)).bind fun items hitems => ?_
    exact Gives.behind fun _ => Gives.pure hitems

end

/-- The operator that comes next is one of those that may. -/
theorem acceptIf_gives {wanted : Mark → Bool} {symbols : List Symbol}
    (h : ∀ m, wanted m = true → ∃ s ∈ symbols, m.token.kind = .symbol s) :
    (acceptIf wanted).Gives fun token? =>
      ∀ token, token? = some token → ∃ s ∈ symbols, token.kind = .symbol s := by
  intro rest token? behind hread token htoken
  unfold acceptIf at hread
  split at hread
  · cases hread
    cases htoken
  · next m behind =>
    split at hread
    · next hm =>
      cases hread
      cases htoken
      exact h m hm
    · cases hread
      cases htoken

/-! ## The productions -/

/-- The inner productions give grammatical trees. -/
structure Inner.GivesGrammatical (inner : Inner) : Prop where
  expression : inner.expression.Gives Expr.Grammatical
  operand : inner.operand.Gives Expr.Grammatical
  block : ∀ ctx, (inner.block ctx).Gives Stmt.AllGrammatical

section

variable {rounds : Nat} {inner : Inner} (hi : inner.GivesGrammatical)

section

include hi

/-- A token that writes a value gives one that can be written; the other cases are a name and a
group. -/
theorem primary_grammatical : (primary inner).Gives Expr.Grammatical := by
  intro s e t h
  unfold primary at h
  split at h
  · cases h
  · split at h
    · next hvalue =>
      cases h
      exact Option.isSome_iff_exists.mpr ⟨_, Literal.ofKind?_eq_some.mp hvalue⟩
    · cases h
      trivial
    · have hparen : (parenthesized inner).Gives Expr.Grammatical :=
        hi.expression.bind fun e he => Gives.behind fun _ => Gives.pure he
      exact hparen _ _ _ h
    · cases h

/-- Whatever is called and with what arguments, the calls are made of expressions that were read. -/
theorem callsOn_grammatical (more : Nat) {callee : Expr} (hcallee : callee.Grammatical) :
    (callsOn rounds inner more callee).Gives Expr.Grammatical := by
  induction more generalizing callee with
  | zero => exact Gives.pure hcallee
  | succ more ih =>
    unfold callsOn
    refine Gives.behind fun found => ?_
    split
    · exact Gives.pure hcallee
    · refine (commaSeparated_gives hi.expression rounds _).bind fun args hargs => ih ?_
      exact ⟨hcallee, (Expr.allGrammatical_iff args).mpr hargs⟩

/-- A prefix is one of the two that the grammar has. -/
theorem unary_grammatical : (unary rounds inner).Gives Expr.Grammatical := by
  unfold unary
  refine (acceptIf_gives fun m => Mark.isOneOf_eq_true).bind fun found hfound => ?_
  split
  · exact (primary_grammatical hi).bind fun callee hcallee => callsOn_grammatical hi rounds hcallee
  · next op =>
    refine hi.operand.bind fun operand hoperand => Gives.pure ⟨?_, hoperand⟩
    exact hfound op rfl

end

/-- A row of operators is grouped to the left, one after the other. -/
theorem operatorsOn_grammatical {operators : List Symbol} (h : operators ⊆ binaryOperators)
    {operand : Parser Expr} (hoperand : operand.Gives Expr.Grammatical) (more : Nat) {left : Expr}
    (hleft : left.Grammatical) :
    (operatorsOn operators operand more left).Gives Expr.Grammatical := by
  induction more generalizing left with
  | zero => exact Gives.pure hleft
  | succ more ih =>
    unfold operatorsOn
    refine (acceptIf_gives fun m => Mark.continuesWith_eq_true).bind fun found hfound => ?_
    split
    · exact Gives.pure hleft
    · next op =>
      obtain ⟨s, hs, hop⟩ := hfound op rfl
      exact hoperand.bind fun right hright => ih ⟨⟨s, h hs, hop⟩, hleft, hright⟩

/-- By induction on the levels; each has operators of the grammar only. -/
theorem binary_grammatical {levels : List (List Symbol)}
    (h : ∀ operators ∈ levels, operators ⊆ binaryOperators) {operand : Parser Expr}
    (hoperand : operand.Gives Expr.Grammatical) :
    (binary rounds operand levels).Gives Expr.Grammatical := by
  induction levels with
  | nil => exact hoperand
  | cons operators tighter ih =>
    rw [List.forall_mem_cons] at h
    have htighter := ih h.2
    exact htighter.bind fun left hleft => operatorsOn_grammatical h.1 htighter rounds hleft

include hi

/-- The operators of all levels are those of the grammar. -/
theorem expression_grammatical : (expression rounds inner).Gives Expr.Grammatical :=
  binary_grammatical (fun _ hlevel _ hs => List.mem_flatten_of_mem hlevel hs)
    (unary_grammatical hi)

/-- A body is a block, whatever is in it. -/
theorem body_grammatical (ctx : Context) :
    (body inner ctx).Gives fun s => s.IsBlock ∧ s.Grammatical := by
  unfold body
  refine Gives.behind fun _ => (hi.block ctx).bind fun statements hs => Gives.pure ?_
  exact ⟨⟨statements, rfl⟩, hs⟩

/-- A condition or a value is grammatical if there is one. -/
theorem some_grammatical :
    (some <$> inner.expression).Gives fun e? => ∀ e ∈ e?, e.Grammatical := by
  rw [Parser.map_eq_bind]
  exact hi.expression.bind fun e he => Gives.pure (by simpa using he)

/-- A loop may have a condition, and has a block. -/
theorem loop_grammatical (ctx : Context) (pos : Position) :
    (loop inner ctx pos).Gives Stmt.Grammatical := by
  have hguard : (loopGuard inner).Gives fun e? => ∀ e ∈ e?, e.Grammatical := by
    intro s condition t h
    unfold loopGuard at h
    split at h
    · cases h
      exact fun e he => by cases he
    · exact some_grammatical hi _ _ _ h
  rw [loop_eq]
  refine hguard.bind fun condition hcondition => ?_
  exact (body_grammatical hi _).bind fun body hbody => Gives.pure ⟨hcondition, hbody⟩

/-- `return` gives the value that was read behind it, if one was. -/
theorem returning_grammatical (ctx : Context) (token : Token) :
    (returning inner ctx token).Gives Stmt.Grammatical := by
  have hvalue : (returnedValue inner).Gives fun e? => ∀ e ∈ e?, e.Grammatical := by
    intro s value t h
    unfold returnedValue at h
    split at h
    · exact some_grammatical hi _ _ _ h
    · cases h
      exact fun e he => by cases he
  rw [returning_eq]
  split
  · rw [Parser.map_eq_bind]
    exact hvalue.bind fun value hvalue => Gives.pure hvalue
  · exact Gives.throw _

/-- By the kind of the statement, as its first token decides it. -/
theorem statement_grammatical (ctx : Context) :
    (statement rounds inner ctx).Gives Stmt.Grammatical := by
  have hexpr : (bareExpression inner).Gives Stmt.Grammatical :=
    hi.expression.bind fun e he => Gives.pure he
  have hcontrol (token : Token) (k : Keyword) {s : Stmt} (hs : s.Grammatical) :
      (loopControl ctx token k s).Gives Stmt.Grammatical := by
    unfold loopControl
    split
    · exact Gives.pure hs
    · exact Gives.throw _
  have hbreak : Stmt.breakLoop.Grammatical := trivial
  have hcontinue : Stmt.continueLoop.Grammatical := trivial
  intro rest s behind h
  unfold statement at h
  split at h
  · exact hexpr _ _ _ h
  · split at h
    · have hconditional : (conditional inner ctx).Gives Stmt.Grammatical :=
        hi.expression.bind fun condition hcondition => (body_grammatical hi ctx).bind
          fun body hbody => Gives.pure ⟨hcondition, hbody⟩
      exact hconditional _ _ _ h
    · exact loop_grammatical hi ctx _ _ _ _ h
    · exact hcontrol _ _ hbreak _ _ _ h
    · exact hcontrol _ _ hcontinue _ _ _ h
    · have hfunction : (function rounds inner).Gives Stmt.Grammatical :=
        Gives.behind fun name => Gives.behind fun _ => Gives.behind fun params =>
          Gives.behind fun _ => (hi.block _).bind fun body hbody => Gives.pure hbody
      exact hfunction _ _ _ h
    · exact returning_grammatical hi ctx _ _ _ _ h
    · have hblock : (bareBlock inner ctx).Gives Stmt.Grammatical :=
        (hi.block ctx).bind fun statements hs => Gives.pure hs
      exact hblock _ _ _ h
    · split at h
      · next name _ _ =>
        have hassign : (assignment inner name).Gives Stmt.Grammatical :=
          hi.expression.bind fun value hvalue => Gives.pure hvalue
        exact hassign _ _ _ h
      · exact hexpr _ _ _ h
    · exact hexpr _ _ _ h

/-- By induction on the statements that may still come. -/
theorem statements_grammatical (ctx : Context) (inBlock : Bool) (more : Nat) {done : List Stmt}
    (hdone : ∀ s ∈ done, s.Grammatical) :
    (statements rounds inner ctx inBlock more done).Gives Stmt.AllGrammatical := by
  have hreverse {body : List Stmt} (hbody : ∀ s ∈ body, s.Grammatical) :
      Stmt.AllGrammatical body.reverse := by
    rw [Stmt.allGrammatical_iff]
    simpa using hbody
  induction more generalizing done with
  | zero => exact Gives.pure (hreverse hdone)
  | succ more ih =>
    unfold statements
    refine Gives.behind fun _ => Gives.behind fun rest => ?_
    split
    · exact Gives.pure (hreverse hdone)
    · refine (statement_grammatical hi ctx).bind fun next hnext => ih ?_
      exact List.forall_mem_cons.mpr ⟨hnext, hdone⟩

/-- The statements of a block are those before its brace. -/
theorem block_grammatical (ctx : Context) :
    (block rounds inner ctx).Gives Stmt.AllGrammatical := by
  unfold block
  refine (statements_grammatical hi ctx true rounds (by simp)).bind fun body hbody => ?_
  exact Gives.behind fun _ => Gives.pure hbody

end

/-- By induction on the room for nesting; without room nothing is given. -/
theorem grammarWithin_grammatical (rounds room : Nat) :
    (grammarWithin rounds room).GivesGrammatical := by
  induction room with
  | zero =>
    have hfull {α : Type} {P : α → Prop} : (failNext .nestingTooDeep : Parser α).Gives P :=
      fun s a t h => by cases h
    exact ⟨hfull, hfull, fun _ => hfull⟩
  | succ room ih =>
    exact ⟨expression_grammatical ih, unary_grammatical ih, fun ctx => block_grammatical ih ctx⟩

/-- **What is parsed is grammatical**: tokens write the values in it, it applies operators of the
grammar only, and the bodies of its conditionals and loops are blocks. -/
theorem parse_grammatical {tokens : List Token} {program : List Stmt}
    (h : parse tokens = .ok program) : Stmt.AllGrammatical program := by
  obtain ⟨rest, hread⟩ := parse_eq_ok.mp h
  exact statements_grammatical (grammarWithin_grammatical _ _) _ _ _ (by simp) _ _ _ hread

/-! ## Where programs can fail -/

/-- The kinds of tokens that errors at run time can name: operators, literals, names and the keyword
of a loop. -/
inductive Token.Kind.CanFail : Token.Kind → Prop
  | operator {s : Symbol} (h : s ∈ unaryOperators ∨ s ∈ binaryOperators) : CanFail (.symbol s)
  | literal {kind : Token.Kind} {value : Literal} (h : value.kind? = some kind) : CanFail kind
  | name (name : String) : CanFail (.identifier name)
  | loop : CanFail (.keyword .forWord)

/-- One of the leaves is at the position, and of a kind that can fail. -/
def Leaf.AnyFailsAt (leaves : List Leaf) (p : Position) : Prop :=
  ∃ kind, Leaf.placed kind p ∈ leaves ∧ kind.CanFail

namespace Leaf.AnyFailsAt

variable {leaves more : List Leaf} {p : Position}

/-- The first leaf may be the one. -/
theorem head {kind : Token.Kind} (h : kind.CanFail) : AnyFailsAt (.placed kind p :: leaves) p :=
  ⟨kind, List.mem_cons_self, h⟩

/-- More leaves take no place away. -/
theorem mono (h : AnyFailsAt leaves p) (hsub : leaves ⊆ more) : AnyFailsAt more p := by
  obtain ⟨kind, hmem, hfail⟩ := h
  exact ⟨kind, hsub hmem, hfail⟩

/-- Nor do leaves that follow. -/
theorem append_left (h : AnyFailsAt leaves p) (more : List Leaf) : AnyFailsAt (leaves ++ more) p :=
  h.mono (List.subset_append_left _ _)

/-- Nor do leaves that come before. -/
theorem append_right (before : List Leaf) (h : AnyFailsAt leaves p) :
    AnyFailsAt (before ++ leaves) p :=
  h.mono (List.subset_append_right _ _)

/-- The commas between lists take nothing away from them. -/
theorem withCommas {lists : List (List Leaf)} (hmem : leaves ∈ lists) (h : AnyFailsAt leaves p) :
    AnyFailsAt (Leaf.withCommas lists) p := by
  cases lists with
  | nil => cases hmem
  | cons first more =>
    rcases List.mem_cons.mp hmem with rfl | hmem
    · exact h.append_left _
    · refine append_right _ (h.mono fun leaf hleaf => List.mem_flatMap.mpr ⟨leaves, hmem, ?_⟩)
      exact List.mem_append_right _ hleaf

end Leaf.AnyFailsAt

/-- A value that a token writes has no positions of its own. -/
theorem Literal.places_of_kind? {kind : Token.Kind} {value : Literal}
    (h : value.kind? = some kind) : value.places = [] := by
  rcases value with _ | _ | (_ | _) | _ | _ | _ <;> cases h <;> rfl

/-- An expression has its own position among those of its parts. -/
theorem Expr.pos_mem_places (e : Expr) : e.pos ∈ e.places := by
  cases e <;> simp [pos, places]

mutual

/-- Every position in an expression is that of a leaf that can fail. -/
theorem Expr.anyFailsAt : (e : Expr) → e.Grammatical → e.CallsPlaced → ∀ p ∈ e.places,
    Leaf.AnyFailsAt e.leaves p
  | .literal _ value, h, _, p, hp => by
    obtain ⟨kind, hkind⟩ := Option.isSome_iff_exists.mp h
    rw [Expr.places, Literal.places_of_kind? hkind] at hp
    obtain rfl := List.mem_singleton.mp hp
    rw [Expr.leaves, hkind]
    exact .head (.literal hkind)
  | .var _ name, _, _, p, hp => by
    obtain rfl := List.mem_singleton.mp hp
    exact .head (.name name)
  | .unary _ op operand, h, hplaced, p, hp => by
    obtain ⟨⟨s, hs, rfl⟩, hoperand⟩ := h
    rcases List.mem_cons.mp hp with rfl | hp
    · exact .head (.operator (.inl hs))
    · exact .append_right _ (operand.anyFailsAt hoperand hplaced p hp)
  | .binary _ op left right, h, hplaced, p, hp => by
    obtain ⟨⟨s, hs, rfl⟩, hleft, hright⟩ := h
    rcases List.mem_cons.mp hp with rfl | hp
    · exact .append_left (.append_right _ (.head (.operator (.inr hs)))) _
    · rcases List.mem_append.mp hp with hp | hp
      · exact ((left.anyFailsAt hleft hplaced.1 p hp).append_left _).append_left _
      · exact .append_right _ (right.anyFailsAt hright hplaced.2 p hp)
  | .call _ callee args, h, hplaced, p, hp => by
    obtain ⟨rfl, hcallee, hargs⟩ := hplaced
    have hinside := callee.anyFailsAt h.1 hcallee
    rcases List.mem_cons.mp hp with rfl | hp
    · exact (hinside _ callee.pos_mem_places).append_left _
    · rcases List.mem_append.mp hp with hp | hp
      · exact (hinside p hp).append_left _
      · obtain ⟨leaves, hmem, harg⟩ := Expr.eachFailsAt args h.2 hargs p hp
        exact .append_right _ (harg.withCommas hmem)

/-- Every position in expressions is that of a leaf of one of them. -/
theorem Expr.eachFailsAt : (es : List Expr) → Expr.AllGrammatical es → Expr.AllCallsPlaced es →
    ∀ p ∈ Expr.allPlaces es, ∃ leaves ∈ Expr.eachLeaves es, Leaf.AnyFailsAt leaves p
  | [], _, _, p, hp => absurd hp List.not_mem_nil
  | e :: rest, h, hplaced, p, hp => by
    rcases List.mem_append.mp hp with hp | hp
    · exact ⟨e.leaves, List.mem_cons_self, e.anyFailsAt h.1 hplaced.1 p hp⟩
    · obtain ⟨leaves, hmem, harg⟩ := Expr.eachFailsAt rest h.2 hplaced.2 p hp
      exact ⟨leaves, List.mem_cons_of_mem _ hmem, harg⟩

end

mutual

/-- Every position in a statement is that of a leaf that can fail. -/
theorem Stmt.anyFailsAt : (s : Stmt) → s.Grammatical → s.CallsPlaced → ∀ p ∈ s.places,
    Leaf.AnyFailsAt s.leaves p
  | .expr e, h, hplaced, p, hp => e.anyFailsAt h hplaced p hp
  | .assign _ value, h, hplaced, p, hp => .append_right _ (value.anyFailsAt h hplaced p hp)
  | .block body, h, hplaced, p, hp =>
    .append_right _ (.append_left (Stmt.allFailsAt body h hplaced p hp) _)
  | .ifThen condition body, h, hplaced, p, hp => by
    rcases List.mem_append.mp hp with hp | hp
    · exact .append_left (.append_right _ (condition.anyFailsAt h.1 hplaced.1 p hp)) _
    · exact .append_right _ (body.anyFailsAt h.2.2 hplaced.2 p hp)
  | .forLoop _ none body, h, hplaced, p, hp => by
    rcases List.mem_cons.mp hp with rfl | hp
    · exact .head .loop
    · exact .append_right _ (body.anyFailsAt h.2.2 hplaced.2 p hp)
  | .forLoop _ (some condition) body, h, hplaced, p, hp => by
    rcases List.mem_cons.mp hp with rfl | hp
    · exact .head .loop
    · rcases List.mem_append.mp hp with hp | hp
      · have hcondition := condition.anyFailsAt (h.1 _ rfl) (hplaced.1 _ rfl) p hp
        exact .append_left (.append_right _ hcondition) _
      · exact .append_right _ (body.anyFailsAt h.2.2 hplaced.2 p hp)
  | .breakLoop, _, _, p, hp => absurd hp List.not_mem_nil
  | .continueLoop, _, _, p, hp => absurd hp List.not_mem_nil
  | .returnValue none, _, _, p, hp => absurd hp List.not_mem_nil
  | .returnValue (some value), h, hplaced, p, hp =>
    .append_right _ (value.anyFailsAt (h _ rfl) (hplaced _ rfl) p hp)
  | .function _ _ body, h, hplaced, p, hp =>
    .append_right _ (.append_left (Stmt.allFailsAt body h hplaced p hp) _)

/-- Every position in statements is that of a leaf that can fail. -/
theorem Stmt.allFailsAt : (body : List Stmt) → Stmt.AllGrammatical body →
    Stmt.AllCallsPlaced body → ∀ p ∈ Stmt.allPlaces body, Leaf.AnyFailsAt (Stmt.allLeaves body) p
  | [], _, _, p, hp => absurd hp List.not_mem_nil
  | s :: rest, h, hplaced, p, hp => by
    rcases List.mem_append.mp hp with hp | hp
    · exact (s.anyFailsAt h.1 hplaced.1 p hp).append_left _
    · exact .append_right _ (Stmt.allFailsAt rest h.2 hplaced.2 p hp)

end

/-- A leaf is what is kept of one of the tokens. -/
theorem Leaf.AllOf.exists_token {leaves : List Leaf} {taken : List Mark}
    (h : Leaf.AllOf leaves taken) {leaf : Leaf} (hleaf : leaf ∈ leaves) :
    ∃ m ∈ taken, leaf.Of m.token := by
  have hsome {leaves : List Leaf} {ts : List Token} (h : List.Forall₂ Leaf.Of leaves ts)
      (hleaf : leaf ∈ leaves) : ∃ t ∈ ts, leaf.Of t := by
    induction h with
    | nil => cases hleaf
    | cons hof _ ih =>
      rcases List.mem_cons.mp hleaf with rfl | hleaf
      · exact ⟨_, List.mem_cons_self, hof⟩
      · obtain ⟨t, ht, hof⟩ := ih hleaf
        exact ⟨t, List.mem_cons_of_mem _ ht, hof⟩
  obtain ⟨t, ht, hof⟩ := hsome h hleaf
  obtain ⟨m, hm, rfl⟩ := List.mem_map.mp (List.mem_of_mem_filter ht)
  exact ⟨m, hm, hof⟩

/-- **Where a program can fail**: every position in what is parsed is that of an operator, a
literal, a name or the keyword of a loop among the tokens. -/
theorem parse_places {tokens : List Token} {program : List Stmt} (h : parse tokens = .ok program)
    {p : Position} (hp : p ∈ Stmt.allPlaces program) :
    ∃ t ∈ tokens, t.pos = p ∧ t.kind.CanFail := by
  obtain ⟨rest, hread⟩ := parse_eq_ok.mp h
  obtain ⟨taken, hmarks, hprogram⟩ :=
    statements_takes (grammarWithin_takes tokens.length maxNesting) ⟨false, false⟩ false
      tokens.length Stmt.allReadFrom_nil _ _ _ hread
  obtain ⟨kind, hleaf, hfail⟩ :=
    Stmt.allFailsAt program (parse_grammatical h) hprogram.good p hp
  obtain ⟨m, hm, hof⟩ := hprogram.leaves.exists_token hleaf
  refine ⟨m.token, ?_, (hof.pos_eq p rfl).symm, Option.some.inj hof.kind_eq ▸ hfail⟩
  rw [← tokens_of_marks tokens, hmarks]
  exact List.mem_map_of_mem (List.mem_append_left _ hm)

end TwinScript
