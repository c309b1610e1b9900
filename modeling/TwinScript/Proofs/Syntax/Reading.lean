import TwinScript.Syntax.Grammar

/-!
# Reading step by step

How the parts of a parser act on the tokens before them: what `do` makes of two parts, and what each
primitive makes of the tokens. Proofs about productions open them with these equations.
-/

namespace TwinScript

namespace Parser

variable {α β : Type}

theorem bind_apply (p : Parser α) (q : α → Parser β) (s : List Mark) :
    (p >>= q) s =
      match p s with
      | .ok (a, t) => q a t
      | .error e => .error e := by
  change StateT.bind p q s = _
  unfold StateT.bind
  cases p s <;> rfl

@[simp] theorem pure_apply (a : α) (s : List Mark) : (pure a : Parser α) s = .ok (a, s) := rfl

@[simp] theorem get_apply (s : List Mark) : (get : Parser (List Mark)) s = .ok (s, s) := rfl

@[simp] theorem modify_apply (f : List Mark → List Mark) (s : List Mark) :
    (modify f : Parser PUnit) s = .ok ((), f s) := rfl

/-- Parts in a row succeed together: the second goes on where the first has stopped. -/
theorem bind_eq_ok {p : Parser α} {q : α → Parser β} {s u : List Mark} {b : β} :
    (p >>= q) s = .ok (b, u) ↔ ∃ a t, p s = .ok (a, t) ∧ q a t = .ok (b, u) := by
  rw [bind_apply]
  constructor
  · intro h
    split at h
    · next a t ha => exact ⟨a, t, ha, h⟩
    · cases h
  · rintro ⟨a, t, ha, hb⟩
    simp only [ha, hb]

/-- Going on with what was read is a part that reads nothing more. -/
theorem map_eq_bind (f : α → β) (p : Parser α) : f <$> p = p >>= fun a => pure (f a) := by
  funext s
  rw [bind_apply]
  change StateT.map f p s = _
  unfold StateT.map
  cases p s <;> rfl

end Parser

/-! ## The next token -/

theorem Parser.nextIs_eq_true {s : Symbol} {rest : List Mark} :
    nextIs s rest = true ↔ ∃ m behind, rest = m :: behind ∧ m.token.kind = .symbol s := by
  cases rest <;> simp [nextIs, upcoming?]

theorem Mark.isOneOf_eq_true {symbols : List Symbol} {m : Mark} (h : m.isOneOf symbols = true) :
    ∃ s ∈ symbols, m.token.kind = .symbol s := by
  unfold Mark.isOneOf at h
  split at h
  · next s hs => exact ⟨s, List.contains_iff_mem.mp h, hs⟩
  · cases h

theorem Mark.isOneOf_of_symbol {symbols : List Symbol} {s : Symbol} (m : Mark)
    (hm : m.token.kind = .symbol s) (hs : s ∈ symbols) : m.isOneOf symbols = true := by
  unfold Mark.isOneOf
  rw [hm]
  exact List.contains_iff_mem.mpr hs

theorem Mark.continuesWith_eq_true {symbols : List Symbol} {m : Mark}
    (h : m.continuesWith symbols = true) : ∃ s ∈ symbols, m.token.kind = .symbol s := by
  unfold Mark.continuesWith at h
  split at h
  · next s hs =>
    rw [Bool.and_eq_true] at h
    exact ⟨s, List.contains_iff_mem.mp h.1, hs⟩
  · cases h

/-! ## Parts of productions -/

/-- The condition of a loop: there is none if the body comes at once. -/
def loopGuard (inner : Inner) : Parser (Option Expr) := fun rest =>
  if nextIs .leftBrace rest then .ok (none, rest) else (some <$> inner.expression) rest

/-- A loop is its condition and its body, which stands in that loop. -/
theorem loop_eq (inner : Inner) (ctx : Context) (pos : Position) :
    loop inner ctx pos = (loopGuard inner >>= fun condition =>
      body inner { ctx with inLoop := true } >>= fun body =>
        pure (.forLoop pos condition body)) := by
  funext rest
  unfold loop
  simp only [Parser.bind_apply, Parser.get_apply, loopGuard]
  split <;> simp only [Parser.bind_apply, Parser.pure_apply]

/-- The value of a `return`, if one follows. -/
def returnedValue (inner : Inner) : Parser (Option Expr) := fun rest =>
  if returnsValue rest then (some <$> inner.expression) rest else .ok (none, rest)

/-- A `return` where a function is around it is no more than its value. -/
theorem returning_eq (inner : Inner) (ctx : Context) (token : Token) :
    returning inner ctx token =
      if ctx.inFunction then Stmt.returnValue <$> returnedValue inner
      else throw ⟨.returnOutsideFunction, some token⟩ := by
  funext rest
  unfold returning
  cases ctx.inFunction with
  | false => simp only [Bool.not_false, if_true, Bool.false_eq_true, if_false]
  | true =>
    simp only [Bool.not_true, Bool.false_eq_true, if_false, if_true, Parser.map_eq_bind,
      Parser.bind_apply, Parser.get_apply, returnedValue]
    split
    · simp only [Parser.bind_apply]
      cases inner.expression rest <;> rfl
    · rfl

/-! ## Whole programs -/

/-- A list of tokens is parsed by reading its marks. -/
theorem parse_eq (tokens : List Token) :
    parse tokens =
      (program tokens.length (grammarWithin tokens.length maxNesting) (marks tokens)).map
        Prod.fst := rfl

/-- What is parsed is what the grammar reads of the marked tokens. -/
theorem parse_eq_ok {tokens : List Token} {statements : List Stmt} :
    parse tokens = .ok statements ↔
      ∃ rest, program tokens.length (grammarWithin tokens.length maxNesting) (marks tokens) =
        .ok (statements, rest) := by
  rw [parse_eq]
  generalize program tokens.length (grammarWithin tokens.length maxNesting) (marks tokens) = read
  cases read with
  | error e =>
    constructor
    · rintro ⟨⟩
    · rintro ⟨_, ⟨⟩⟩
  | ok r =>
    obtain ⟨read, rest⟩ := r
    constructor
    · intro h
      cases h
      exact ⟨rest, rfl⟩
    · rintro ⟨_, h⟩
      cases h
      rfl

/-- Parsing fails where the grammar does. -/
theorem parse_eq_error {tokens : List Token} {e : ParseError} :
    parse tokens = .error e ↔
      program tokens.length (grammarWithin tokens.length maxNesting) (marks tokens) =
        .error e := by
  rw [parse_eq]
  generalize program tokens.length (grammarWithin tokens.length maxNesting) (marks tokens) = read
  cases read with
  | error e' =>
    constructor
    · rintro ⟨⟩
      rfl
    · rintro ⟨⟩
      rfl
  | ok r =>
    constructor
    · rintro ⟨⟩
    · rintro ⟨⟩

end TwinScript
