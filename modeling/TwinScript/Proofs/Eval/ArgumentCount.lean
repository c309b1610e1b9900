import TwinScript.Proofs.Eval.Effects
import Mathlib.Tactic.Common

/-!
# Calls with a wrong number of arguments

A call whose function takes another number of arguments never gives a value. A function of the
program is not even handed its arguments then: they are not evaluated. A function of the language
evaluates them first, so what they do has happened when the number is found to be wrong, and an
error of theirs takes its place.

* `Expr.eval_call_of_closure`, `Expr.eval_call_of_builtin`: what such a call comes to.
* `Expr.CallFree`: expressions that change nothing, so that nothing is lost by evaluating them.
* `wrong_argument_count_fails`: where the number of arguments is all that the call comes to.
-/

namespace TwinScript

/-- How many arguments a value takes, if it is a function. -/
def Val.arity? : Val → Option Nat
  | closure c => some c.params.length
  | builtin b => some b.arity
  | _ => none

/-- There are two kinds of functions. -/
theorem Val.function_of_arity? {v : Val} {arity : Nat} (h : v.arity? = some arity) :
    (∃ c, v = .closure c ∧ c.params.length = arity) ∨ ∃ b, v = .builtin b ∧ b.arity = arity := by
  cases v with
  | closure c => exact .inl ⟨c, rfl, Option.some.inj h⟩
  | builtin b => exact .inr ⟨b, rfl, Option.some.inj h⟩
  | _ => cases h

/-! ## Evaluating arguments -/

/-- As many values come out as there are expressions. -/
theorem Expr.length_of_evalAll {call : CallRule} {f : FrameId} {args : List Expr}
    {st st' : State} {values : List Val} (h : Expr.evalAll call f args st = .done values st') :
    values.length = args.length := by
  induction args generalizing st values with
  | nil =>
    rw [Expr.evalAll] at h
    cases h
    rfl
  | cons e rest ih =>
    rw [Expr.evalAll] at h
    obtain ⟨v, mid, -, hrest⟩ := Eval.bind_eq_done.mp h
    obtain ⟨vs, mid', hvs, hvalues⟩ := Eval.bind_eq_done.mp hrest
    cases hvalues
    rw [List.length_cons, List.length_cons, ih hvs]

section

variable {call : CallRule} {f : FrameId} {pos : Position} {callee : Expr} {args : List Expr}
  {st mid : State}

/-- A function of the program does not evaluate its arguments if their number is wrong. -/
theorem Expr.eval_call_of_closure {c : Closure}
    (hcallee : callee.eval call f st = .done (.closure c) mid)
    (hcount : args.length ≠ c.params.length) :
    (Expr.call pos callee args).eval call f st =
      .failed (.wrongArgumentCount pos c.params.length args.length) mid := by
  rw [Expr.eval, Eval.bind_apply, hcallee]
  dsimp only
  rw [if_neg hcount]
  rfl

/-- A function of the language refuses arguments of a wrong number once they are evaluated. -/
theorem Builtin.call_of_length_ne {b : Builtin} {values : List Val}
    (h : values.length ≠ b.arity) (pos : Position) :
    b.call values pos = Eval.fail (.wrongArgumentCount pos b.arity values.length) := by
  unfold Builtin.call
  split
  · exact absurd rfl h
  · rfl

theorem Expr.eval_call_of_builtin {b : Builtin}
    (hcallee : callee.eval call f st = .done (.builtin b) mid) (hcount : args.length ≠ b.arity) :
    (Expr.call pos callee args).eval call f st =
      (Expr.evalAll call f args >>= fun _ =>
        Eval.fail (.wrongArgumentCount pos b.arity args.length)) mid := by
  rw [Expr.eval, Eval.bind_apply, hcallee]
  dsimp only
  rw [Eval.bind_apply, Eval.bind_apply]
  cases hargs : Expr.evalAll call f args mid with
  | done values after =>
    have hlength := Expr.length_of_evalAll hargs
    have hvalues : values.length ≠ b.arity := by
      rw [hlength]
      exact hcount
    dsimp only
    rw [Builtin.call_of_length_ne hvalues, hlength]
  | failed e after => rfl
  | unfinished | crashed => rfl

end

/-! ## Expressions without calls -/

/-- There is no call in the expression. -/
def Expr.CallFree : Expr → Prop
  | .literal .. => True
  | .var .. => True
  | .unary _ _ operand => operand.CallFree
  | .binary _ _ left right => left.CallFree ∧ right.CallFree
  | .call .. => False

namespace Eval

/-- The part of a program ends, and leaves the state that it began in. -/
def Inert {α : Type} (m : Eval α) : Prop := ∀ st, (m st).state? = some st

/-- So it ends in that state, with a result or with an error. -/
theorem Inert.done_or_failed {α : Type} {m : Eval α} (hm : m.Inert) (st : State) :
    (∃ a, m st = .done a st) ∨ ∃ e, m st = .failed e st := by
  have h := hm st
  cases hr : m st with
  | done a mid =>
    rw [hr] at h
    exact .inl ⟨a, Option.some.inj h ▸ rfl⟩
  | failed e mid =>
    rw [hr] at h
    exact .inr ⟨e, Option.some.inj h ▸ rfl⟩
  | unfinished | crashed =>
    rw [hr] at h
    cases h

/-- An answer alone changes nothing. -/
theorem Inert.pure {α : Type} (a : α) : (Pure.pure a : Eval α).Inert := fun _ => rfl

/-- Nor does an answer that may be an error. -/
theorem Inert.ofExcept {α : Type} (x : Except EvalError α) : (Eval.ofExcept x).Inert := by
  intro st
  cases x <;> rfl

/-- Nor does reading a name. -/
theorem Inert.readName (f : FrameId) (pos : Position) (name : String) :
    (Eval.readName f pos name).Inert := by
  intro st
  unfold Eval.readName
  split <;> rfl

/-- Two parts that change nothing do so in a row. -/
theorem Inert.bind {α β : Type} {m : Eval α} {next : α → Eval β} (hm : m.Inert)
    (hnext : ∀ a, (next a).Inert) : (m >>= next).Inert := by
  intro st
  rw [bind_apply]
  obtain ⟨a, hr⟩ | ⟨e, hr⟩ := hm.done_or_failed st
  · rw [hr]
    exact hnext a st
  · rw [hr]
    rfl

/-- To fail behind a part of a program is to fail at once exactly if that part changes nothing and
gives a result, or the same error. -/
theorem bind_fail_eq_failed_iff {α β : Type} {m : Eval α} {st : State} {e : EvalError} :
    (m >>= fun _ => (fail e : Eval β)) st = .failed e st ↔
      (∃ a, m st = .done a st) ∨ m st = .failed e st := by
  rw [bind_apply]
  cases m st with
  | done a mid => simp [fail]
  | failed e' mid => simp
  | unfinished | crashed => simp

/-- To fail behind a part of a program that changes nothing changes nothing. -/
theorem Inert.bind_fail {α β : Type} {m : Eval α} (hm : m.Inert) (e : EvalError) (st : State) :
    ∃ e', (m >>= fun _ => (fail e : Eval β)) st = .failed e' st ∧
      (e' = e ∨ m st = .failed e' st) := by
  rw [bind_apply]
  obtain ⟨a, hr⟩ | ⟨e', hr⟩ := hm.done_or_failed st
  · rw [hr]
    exact ⟨e, rfl, .inl rfl⟩
  · rw [hr]
    exact ⟨e', rfl, .inr rfl⟩

end Eval

/-- An expression without calls ends, and changes nothing. -/
theorem Expr.eval_inert (call : CallRule) (f : FrameId) :
    ∀ {e : Expr}, e.CallFree → (e.eval call f).Inert
  | .literal _ value, _ => by
    rw [Expr.eval]
    exact .pure _
  | .var pos name, _ => by
    rw [Expr.eval]
    exact .readName f pos name
  | .unary pos op operand, h => by
    have hoperand : operand.CallFree := h
    rw [Expr.eval]
    exact (Expr.eval_inert call f hoperand).bind fun x => .ofExcept _
  | .binary pos op left right, h => by
    rw [Expr.eval]
    have hright := Expr.eval_inert call f h.2
    apply (Expr.eval_inert call f h.1).bind
    intro l
    split
    · split
      · exact .pure _
      · exact hright.bind fun r => .pure _
    · split
      · split
        · exact hright.bind fun r => .pure _
        · exact .pure _
      · exact hright.bind fun r => .ofExcept _

theorem Expr.evalAll_inert (call : CallRule) (f : FrameId) {args : List Expr}
    (h : ∀ e ∈ args, e.CallFree) : (Expr.evalAll call f args).Inert := by
  induction args with
  | nil =>
    rw [Expr.evalAll]
    exact .pure _
  | cons e rest ih =>
    obtain ⟨he, hrest⟩ := List.forall_mem_cons.mp h
    rw [Expr.evalAll]
    exact (Expr.eval_inert call f he).bind fun v => (ih hrest).bind fun vs => .pure _

/-! ## Calls -/

/-- **A wrong number of arguments.** If the callee is a function of the program that takes another
number of arguments, the call fails with that number in the state that the callee has left, whatever
the arguments. A function of the language evaluates them first: the call fails in this way exactly if
that changes nothing and gives values, or fails in this way itself. In no case does the call give a
value; and arguments without calls change nothing, so that it leaves the state of the callee then,
whatever its error. -/
theorem wrong_argument_count_fails {call : CallRule} {f : FrameId} {pos : Position}
    {callee : Expr} {args : List Expr} {st mid : State} {v : Val} {arity : Nat}
    (hcallee : callee.eval call f st = .done v mid) (harity : v.arity? = some arity)
    (hcount : args.length ≠ arity) :
    let outcome := (Expr.call pos callee args).eval call f st
    let miscounted := EvalError.wrongArgumentCount pos arity args.length
    (∀ c, v = .closure c → outcome = .failed miscounted mid) ∧
    (∀ b, v = .builtin b → (outcome = .failed miscounted mid ↔
      (∃ values, Expr.evalAll call f args mid = .done values mid) ∨
        Expr.evalAll call f args mid = .failed miscounted mid)) ∧
    (∀ result after, outcome ≠ .done result after) ∧
    ((∀ e ∈ args, e.CallFree) → ∃ e, outcome = .failed e mid ∧
      (e = miscounted ∨ Expr.evalAll call f args mid = .failed e mid)) := by
  intro outcome miscounted
  rcases Val.function_of_arity? harity with ⟨c, rfl, rfl⟩ | ⟨b, rfl, rfl⟩
  · have hcall : outcome = .failed miscounted mid := Expr.eval_call_of_closure hcallee hcount
    refine ⟨fun _ _ => hcall, fun b hb => (by cases hb), fun result after hdone => ?_, fun _ => ?_⟩
    · cases hcall.symm.trans hdone
    · exact ⟨miscounted, hcall, .inl rfl⟩
  · have hcall : outcome =
        (Expr.evalAll call f args >>= fun _ => (Eval.fail miscounted : Eval Val)) mid :=
      Expr.eval_call_of_builtin hcallee hcount
    rw [hcall]
    refine ⟨fun c hc => (by cases hc), fun _ _ => Eval.bind_fail_eq_failed_iff,
      fun result after hdone => ?_, fun hfree => ?_⟩
    · obtain ⟨_, _, _, hfail⟩ := Eval.bind_eq_done.mp hdone
      cases hfail
    · exact (Expr.evalAll_inert call f hfree).bind_fail miscounted mid

/-- A call of a function without parameters does not print its argument, and a call of `println`
with two numbers prints neither. -/
theorem wrong_argument_count_fails_of_function_and_println :
    let st := (Interpreter.new .unlimited none).start
    let c : Closure := ⟨0, "f", [], [], Heap.root⟩
    let mid : State := { st with heap := st.heap.define Heap.root "f" (.closure c) }
    let println : Expr := .literal ⟨1, 1⟩ (.builtin .println)
    let argument : Expr := .call ⟨1, 3⟩ (.literal ⟨1, 3⟩ (.builtin .println))
      [.literal ⟨1, 11⟩ (.str "a")]
    let numbers : List Expr := [.literal ⟨1, 9⟩ (.int 1), .literal ⟨1, 12⟩ (.int 2)]
    (Expr.call ⟨1, 1⟩ (.var ⟨1, 1⟩ "f") [argument]).eval (callWithin 1) Heap.root mid =
      .failed (.wrongArgumentCount ⟨1, 1⟩ 0 1) mid ∧
    (Expr.call ⟨1, 1⟩ println numbers).eval (callWithin 1) Heap.root st =
      .failed (.wrongArgumentCount ⟨1, 1⟩ 1 2) st := by
  intro st c mid println argument numbers
  have hf : (Expr.var ⟨1, 1⟩ "f").eval (callWithin 1) Heap.root mid = .done (.closure c) mid := rfl
  have hprintln : println.eval (callWithin 1) Heap.root st = .done (.builtin .println) st := rfl
  have hnumbers : Expr.evalAll (callWithin 1) Heap.root numbers st =
    .done [.int 1, .int 2] st := rfl
  exact ⟨(wrong_argument_count_fails hf rfl (by decide)).1 c rfl,
    ((wrong_argument_count_fails hprintln rfl (by decide)).2.1 .println rfl).mpr
      (.inl ⟨_, hnumbers⟩)⟩

/-- A call of `println` with two arguments prints what its first argument prints. -/
theorem println_evaluates_too_many_arguments :
    let outer : Expr := .call ⟨1, 1⟩ (.literal ⟨1, 1⟩ (.builtin .println))
      [.call ⟨1, 9⟩ (.literal ⟨1, 9⟩ (.builtin .println)) [.literal ⟨1, 17⟩ (.str "a")],
        .literal ⟨1, 23⟩ (.int 2)]
    let st := (Interpreter.new .unlimited none).start
    readProgram "println(println(\"a\"), 2)" = .ok [.expr outer] ∧
    ∃ after, outer.eval (callWithin 0) Heap.root st =
        .failed (.wrongArgumentCount ⟨1, 1⟩ 1 2) after ∧
      st.sink.written = .empty ∧ after.sink.written = "a\n".toUTF8 ∧ after ≠ st := by
  intro outer st
  have htokens : tokenize "println(println(\"a\"), 2)" = .ok [
      ⟨.keyword .printlnWord, "println", ⟨1, 1⟩⟩, ⟨.symbol .leftParen, "(", ⟨1, 8⟩⟩,
      ⟨.keyword .printlnWord, "println", ⟨1, 9⟩⟩, ⟨.symbol .leftParen, "(", ⟨1, 16⟩⟩,
      ⟨.string "a", "\"a\"", ⟨1, 17⟩⟩, ⟨.symbol .rightParen, ")", ⟨1, 20⟩⟩,
      ⟨.symbol .comma, ",", ⟨1, 21⟩⟩, ⟨.integer 2, "2", ⟨1, 23⟩⟩,
      ⟨.symbol .rightParen, ")", ⟨1, 24⟩⟩] := by decide +kernel
  have hwritten : (ByteArray.empty ++ ("a" ++ "\n").toUTF8) = "a\n".toUTF8 := by decide +kernel
  refine ⟨readProgram_eq_ok.mpr ⟨_, htokens, rfl⟩, _, rfl, rfl, hwritten, fun heq => ?_⟩
  have hsize : ("a\n".toUTF8).size = ByteArray.empty.size := by
    rw [← hwritten]
    exact congrArg (·.sink.written.size) heq
  exact absurd hsize (by decide +kernel)

end TwinScript
