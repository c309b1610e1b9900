import TwinScript.Proofs.Syntax.Reading

/-!
# Where signals may stand

`break`, `continue` and `return` only make sense inside something that receives them. `Stmt.Placed`
says of a statement that all of them, in itself and in the functions it declares, stand inside what
a context promises; the body of a function starts again from its own context.

* `parse_placed`: a program that was parsed is placed where neither a loop nor a function is around
  it.

The proof goes production by production. `Parser.Gives` is what a production promises of its result,
and it composes along `do`.
-/

namespace TwinScript

/-! ## Placed statements -/

mutual

/-- Every `break`, `continue` and `return` of the statement has what it needs around it, if the
statement stands in the context `ctx`. -/
def Stmt.Placed (ctx : Context) : Stmt → Prop
  | .expr _ => True
  | .assign _ _ => True
  | .block body => Stmt.AllPlaced ctx body
  | .ifThen _ body => body.Placed ctx
  | .forLoop _ _ body => body.Placed { ctx with inLoop := true }
  | .breakLoop => ctx.inLoop = true
  | .continueLoop => ctx.inLoop = true
  | .returnValue _ => ctx.inFunction = true
  | .function _ _ body => Stmt.AllPlaced ⟨false, true⟩ body

/-- All of the statements are placed in the context `ctx`. -/
def Stmt.AllPlaced (ctx : Context) : List Stmt → Prop
  | [] => True
  | s :: rest => s.Placed ctx ∧ Stmt.AllPlaced ctx rest

end

/-- All of the statements are placed exactly when each of them is. -/
theorem Stmt.allPlaced_iff (ctx : Context) (body : List Stmt) :
    Stmt.AllPlaced ctx body ↔ ∀ s ∈ body, s.Placed ctx := by
  induction body with
  | nil => exact ⟨fun _ _ h => (List.not_mem_nil h).elim, fun _ => trivial⟩
  | cons s rest ih =>
    rw [List.forall_mem_cons, ← ih]
    rfl

/-! ## What a production gives -/

namespace Parser

variable {α β : Type}

/-- Whatever is read, what it is read as has the property `P`. -/
def Gives (p : Parser α) (P : α → Prop) : Prop :=
  ∀ s a t, p s = .ok (a, t) → P a

/-- A parser may give what it was handed. -/
theorem Gives.pure {P : α → Prop} {a : α} (h : P a) : (Pure.pure a : Parser α).Gives P := by
  intro s b t hb
  cases hb
  exact h

/-- A parser that fails gives nothing. -/
theorem Gives.throw {P : α → Prop} (e : ParseError) : (MonadExcept.throw e : Parser α).Gives P := by
  intro s a t h
  cases h

/-- What the first part gives may be used of the second. -/
theorem Gives.bind {p : Parser α} {q : α → Parser β} {P : α → Prop} {Q : β → Prop}
    (hp : p.Gives P) (hq : ∀ a, P a → (q a).Gives Q) : (p >>= q).Gives Q := by
  intro s b u h
  obtain ⟨a, t, ha, hb⟩ := bind_eq_ok.mp h
  exact hq a (hp s a t ha) t b u hb

/-- The first part need not promise anything if the second keeps its promise anyhow. -/
theorem Gives.behind {p : Parser α} {q : α → Parser β} {Q : β → Prop}
    (hq : ∀ a, (q a).Gives Q) : (p >>= q).Gives Q :=
  Gives.bind (P := fun _ => True) (fun _ _ _ _ => True.intro) fun a _ => hq a

/-- A statement of one expression, or of several, is placed anywhere. -/
theorem Gives.of_pure {p : Parser α} {f : α → β} {Q : β → Prop} (hf : ∀ a, Q (f a)) :
    (p >>= fun a => Pure.pure (f a)).Gives Q :=
  Gives.behind fun a => Gives.pure (hf a)

end Parser

/-! ## The productions -/

/-- The grammar one level further in reads blocks that are placed where they stand. -/
def Inner.Places (inner : Inner) : Prop :=
  ∀ ctx, (inner.block ctx).Gives (Stmt.AllPlaced ctx)

section

variable {rounds : Nat} {inner : Inner}

/-- A body is placed in the context that it is read in. -/
theorem body_placed (hi : inner.Places) (ctx : Context) :
    (body inner ctx).Gives (Stmt.Placed ctx) := by
  unfold body
  refine Parser.Gives.behind fun _ => (hi ctx).bind fun statements hs => ?_
  exact Parser.Gives.pure hs

/-- A conditional hands its own context to its body. -/
theorem conditional_placed (hi : inner.Places) (ctx : Context) :
    (conditional inner ctx).Gives (Stmt.Placed ctx) := by
  unfold conditional
  refine Parser.Gives.behind fun _ => (body_placed hi ctx).bind fun body hb => ?_
  exact Parser.Gives.pure hb

/-- The body of a loop is read, and placed, inside a loop. -/
theorem loop_placed (hi : inner.Places) (ctx : Context) (pos : Position) :
    (loop inner ctx pos).Gives (Stmt.Placed ctx) := by
  rw [loop_eq]
  refine Parser.Gives.behind fun _ => ?_
  refine (body_placed hi { ctx with inLoop := true }).bind fun body hb => ?_
  exact Parser.Gives.pure hb

/-- `break` and `continue` are refused where no loop is around them. -/
theorem loopControl_placed (ctx : Context) (token : Token) (k : Keyword) {statement : Stmt}
    (h : ctx.inLoop = true → statement.Placed ctx) :
    (loopControl ctx token k statement).Gives (Stmt.Placed ctx) := by
  unfold loopControl
  split
  · next hl => exact Parser.Gives.pure (h hl)
  · exact Parser.Gives.throw _

/-- The body of a function is read in the context of a function without loops, whatever is around
the declaration. -/
theorem function_placed (hi : inner.Places) (ctx : Context) :
    (function rounds inner).Gives (Stmt.Placed ctx) := by
  unfold function
  refine Parser.Gives.behind fun _ => Parser.Gives.behind fun _ => ?_
  refine Parser.Gives.behind fun _ => Parser.Gives.behind fun _ => ?_
  refine (hi ⟨false, true⟩).bind fun body hb => ?_
  exact Parser.Gives.pure hb

/-- `return` is refused where no function is around it. -/
theorem returning_placed (ctx : Context) (token : Token) :
    (returning inner ctx token).Gives (Stmt.Placed ctx) := by
  rw [returning_eq]
  split
  · next hf =>
    rw [Parser.map_eq_bind]
    exact Parser.Gives.of_pure fun _ => hf
  · exact Parser.Gives.throw _

/-- A block that stands for itself is placed as its statements are. -/
theorem bareBlock_placed (hi : inner.Places) (ctx : Context) :
    (bareBlock inner ctx).Gives (Stmt.Placed ctx) := by
  unfold bareBlock
  refine (hi ctx).bind fun statements hs => ?_
  exact Parser.Gives.pure hs

/-- An expression is placed anywhere. -/
theorem bareExpression_placed (ctx : Context) :
    (bareExpression inner).Gives (Stmt.Placed ctx) :=
  Parser.Gives.of_pure fun _ => trivial

/-- So is an assignment. -/
theorem assignment_placed (ctx : Context) (name : String) :
    (assignment inner name).Gives (Stmt.Placed ctx) :=
  Parser.Gives.of_pure fun _ => trivial

/-- The statements that ask something of their context are refused where it does not hold. -/
theorem statement_placed (hi : inner.Places) (ctx : Context) :
    (statement rounds inner ctx).Gives (Stmt.Placed ctx) := by
  have hbreak : ctx.inLoop = true → Stmt.breakLoop.Placed ctx := fun hloop => hloop
  have hcontinue : ctx.inLoop = true → Stmt.continueLoop.Placed ctx := fun hloop => hloop
  intro rest s behind h
  unfold statement at h
  split at h
  · exact bareExpression_placed ctx _ _ _ h
  · split at h
    · exact conditional_placed hi ctx _ _ _ h
    · exact loop_placed hi ctx _ _ _ _ h
    · exact loopControl_placed ctx _ _ hbreak _ _ _ h
    · exact loopControl_placed ctx _ _ hcontinue _ _ _ h
    · exact function_placed hi ctx _ _ _ h
    · exact returning_placed ctx _ _ _ _ h
    · exact bareBlock_placed hi ctx _ _ _ h
    · split at h
      · exact assignment_placed ctx _ _ _ _ h
      · exact bareExpression_placed ctx _ _ _ h
    · exact bareExpression_placed ctx _ _ _ h

/-- By induction on the statements that may still come. -/
theorem statements_placed (hi : inner.Places) (ctx : Context) (inBlock : Bool) (more : Nat)
    (done : List Stmt) (hd : Stmt.AllPlaced ctx done) :
    (statements rounds inner ctx inBlock more done).Gives (Stmt.AllPlaced ctx) := by
  have hreverse {body : List Stmt} (hb : Stmt.AllPlaced ctx body) :
      Stmt.AllPlaced ctx body.reverse := by
    rw [Stmt.allPlaced_iff] at hb ⊢
    simpa only [List.mem_reverse] using hb
  induction more generalizing done with
  | zero => exact Parser.Gives.pure (hreverse hd)
  | succ more ih =>
    unfold statements
    refine Parser.Gives.behind fun _ => Parser.Gives.behind fun rest => ?_
    split
    · exact Parser.Gives.pure (hreverse hd)
    · refine (statement_placed hi ctx).bind fun next hn => ih _ ?_
      exact ⟨hn, hd⟩

/-- The statements of a block have its context. -/
theorem block_placed (hi : inner.Places) (ctx : Context) :
    (block rounds inner ctx).Gives (Stmt.AllPlaced ctx) := by
  unfold block
  refine (statements_placed hi ctx true rounds [] trivial).bind fun body hb => ?_
  exact Parser.Gives.behind fun _ => Parser.Gives.pure hb

end

/-! ## The whole grammar -/

/-- By induction on the room for nesting. -/
theorem grammarWithin_places (rounds room : Nat) : (grammarWithin rounds room).Places := by
  induction room with
  | zero =>
    intro ctx s a t h
    cases h
  | succ room ih => exact fun ctx => block_placed ih ctx

/-- A program that was parsed has every `break` and `continue` inside a loop of the same function,
and every `return` inside a function. -/
theorem parse_placed {tokens : List Token} {program : List Stmt}
    (h : parse tokens = .ok program) : Stmt.AllPlaced ⟨false, false⟩ program := by
  obtain ⟨rest, hp⟩ := parse_eq_ok.mp h
  exact statements_placed (grammarWithin_places _ _) _ _ _ [] trivial _ _ _ hp

end TwinScript
