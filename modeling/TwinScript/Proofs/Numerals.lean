import TwinScript.Proofs.Eval.Arithmetic
import TwinScript.Proofs.Interpreter
import TwinScript.Proofs.Token.Spelling

/-!
# Printed integers are read back

A sign is no part of a literal. So the text of a negative integer is read as an operator and a
literal, and the digits behind the sign have to be in range before the operator turns them over.
They are for all integers but the least, whose digits are those of an integer that is too large.

* `spells_int`: the tokens that the text of an integer is read as.
* `IsNumeral.answer_eq`: the expression that these write gives the integer again.
* `printed_integers_read_back`: so does running the text.
* `least_integer_is_not_read_back`: the text of the least integer is no program.
-/

namespace TwinScript

/-! ## Tokens -/

theorem text_int_of_neg {n : Int64} (h : n.toInt < 0) :
    (Val.int n).text = "-" ++ toString (-n.toInt) := by
  show toString n.toInt = _
  generalize n.toInt = m at h ⊢
  obtain ⟨k, rfl⟩ := Int.eq_negSucc_of_lt_zero h
  rfl

/-- All integers but the least have one of the opposite sign. -/
theorem exists_toInt_eq_neg {n : Int64} (h : n ≠ .minValue) : ∃ m : Int64, m.toInt = -n.toInt := by
  have hne : n.toInt ≠ -0x8000000000000000 := fun heq => h (Int64.toInt_inj.mp heq)
  have hrange := inRange_toInt n
  refine ⟨Int64.ofInt (-n.toInt), toInt_ofInt_of_inRange ?_⟩
  unfold InRange at *
  omega

/-- The text of an integer is a literal, or a sign and the literal of the integer without it. -/
theorem spells_int {n : Int64} (h : n ≠ .minValue) :
    Spells (Val.int n).text.toList [.integer n] ∨
      ∃ m : Int64, m.toInt = -n.toInt ∧
        Spells (Val.int n).text.toList [.symbol .minus, .integer m] := by
  by_cases hsign : 0 ≤ n.toInt
  · exact .inl (SpellsOperand.integer hsign).toSpells
  · obtain ⟨m, hm⟩ := exists_toInt_eq_neg h
    refine .inr ⟨m, hm, ?_⟩
    have hdigits : SpellsOperand (toString (-n.toInt)).toList [.integer m] := by
      rw [← hm]
      exact SpellsOperand.integer (by omega)
    rw [text_int_of_neg (by omega), String.toList_append]
    exact hdigits.behindSymbol .minus

/-! ## Programs -/

/-- The expression writes the integer: with a literal, or with a sign before the literal of the
integer without it. -/
def IsNumeral (n : Int64) (a : Arithmetic) : Prop :=
  (∃ pos, a = .literal pos n) ∨
    ∃ sign pos m, m.toInt = -n.toInt ∧ a = .negation sign (.literal pos m)

/-- What a numeral gives is the integer that it writes. -/
theorem IsNumeral.answer_eq {n : Int64} {a : Arithmetic} (h : IsNumeral n a) :
    a.answer = .ok (.int n) := by
  have hliteral (pos : Position) (m : Int64) :
      (Arithmetic.literal pos m).answer = .ok (.int m) := by
    rw [Arithmetic.answer, Arithmetic.firstFault?_literal, Arithmetic.answerBut, Arithmetic.value,
      Int64.ofInt_toInt]
  rcases h with ⟨pos, rfl⟩ | ⟨sign, pos, m, hm, rfl⟩
  · exact hliteral pos n
  · have hvalue : -m.toInt = n.toInt := by omega
    calc (Arithmetic.negation sign (.literal pos m)).answer
      _ = unaryValue sign (.symbol .minus) (.int m) := by
          rw [Arithmetic.answer_negation, hliteral]
          rfl
      _ = exactInt sign n.toInt := by rw [← hvalue]; rfl
      _ = .ok (.int n) := exactInt_toInt sign n

/-- The text of an integer is the program that consists of its numeral. -/
theorem readProgram_int {n : Int64} (h : n ≠ .minValue) :
    ∃ a, IsNumeral n a ∧ readProgram (Val.int n).text = .ok [.expr a.expr] := by
  rcases spells_int h with hspells | ⟨m, hm, hspells⟩
  · obtain ⟨tokens, htokens, hkinds, -⟩ := hspells.tokenize
    obtain ⟨⟨_, lexeme, pos⟩, rfl, rfl⟩ := List.map_eq_singleton_iff.mp hkinds
    exact ⟨.literal pos n, .inl ⟨pos, rfl⟩, readProgram_eq_ok.mpr ⟨_, htokens, rfl⟩⟩
  · obtain ⟨tokens, htokens, hkinds, -⟩ := hspells.tokenize
    obtain ⟨⟨_, minus, sign⟩, rest, rfl, rfl, hrest⟩ := List.map_eq_cons_iff.mp hkinds
    obtain ⟨⟨_, lexeme, pos⟩, rfl, rfl⟩ := List.map_eq_singleton_iff.mp hrest
    exact ⟨.negation sign (.literal pos m), .inr ⟨sign, pos, m, hm, rfl⟩,
      readProgram_eq_ok.mpr ⟨_, htokens, rfl⟩⟩

/-- A program that consists of an expression of arithmetic changes nothing, and gives what the
expression gives. -/
theorem Arithmetic.executeWithin_eq (a : Arithmetic) (fuel : Nat) (it : Interpreter) :
    it.executeWithin fuel [.expr a.expr] =
      some (it.sink.answerAfterFlush (a.answer.map some), it) := by
  have hrun : runProgram fuel [.expr a.expr] it.start =
      Eval.ofExcept (a.answer.map some) it.start := by
    rw [runProgram, Arithmetic.eval_eq]
    cases a.answer <;> rfl
  rw [Interpreter.executeWithin_eq, hrun]
  cases a.answer <;> rfl

/-- The text of an integer gives the integer, unless it is the least. -/
theorem runWithin_int {n : Int64} (h : n ≠ .minValue) (fuel : Nat) (it : Interpreter) :
    it.runWithin fuel (Val.int n).text =
      some ((it.sink.answerAfterFlush (.ok (some (.int n)))).mapError .eval, it) := by
  obtain ⟨a, ha, hread⟩ := readProgram_int h
  rw [Interpreter.runWithin_of_ok hread, Arithmetic.executeWithin_eq, ha.answer_eq]
  rfl

/-- **Printed integers are read back.** The text of every integer but the least, run as a program by
any interpreter with any fuel, gives the integer and changes nothing, unless the flush behind the
program fails, which is then the error of the run. -/
theorem printed_integers_read_back (n : Int64) (hn : n ≠ .minValue) (fuel : Nat)
    (it : Interpreter) :
    (it.sink.flushFails = false →
      it.runWithin fuel (Val.int n).text = some (.ok (some (.int n)), it)) ∧
    (it.sink.flushFails = true →
      it.runWithin fuel (Val.int n).text = some (.error (.eval (.output .flush)), it)) := by
  rw [runWithin_int hn]
  constructor <;>
  · intro hflush
    rw [Sink.answerAfterFlush, Sink.flush, hflush]
    rfl

/-- The least integer but one is read back by a new interpreter. -/
theorem printed_integers_read_back_second_least :
    let n : Int64 := -0x7fffffffffffffff
    let it := Interpreter.new .unlimited none
    n ≠ .minValue ∧ (Val.int n).text = "-9223372036854775807" ∧ it.sink.flushFails = false ∧
      it.runWithin 0 (Val.int n).text = some (.ok (some (.int n)), it) := by
  intro n it
  have hn : n ≠ .minValue := by decide
  exact ⟨hn, by decide +kernel, rfl, (printed_integers_read_back n hn 0 it).1 rfl⟩

/-- The digits of the least integer are out of range, which no interpreter gets past. And where
flushes fail, no integer is read back. -/
theorem least_integer_is_not_read_back :
    let least := Val.int .minValue
    (∀ fuel (it : Interpreter), it.runWithin fuel least.text =
      some (.error (.scan ⟨.outOfRange "9223372036854775808", ⟨1, 2⟩⟩), it)) ∧
    (∀ fuel, let it := Interpreter.new ⟨.empty, none, true⟩ none
      it.runWithin fuel (Val.int 1).text = some (.error (.eval (.output .flush)), it)) ∧
    ¬ ∀ (n : Int64) (it : Interpreter), ∃ fuel after,
      it.runWithin fuel (Val.int n).text = some (.ok (some (.int n)), after) := by
  intro least
  have hscan : tokenize least.text =
      .error ⟨.outOfRange "9223372036854775808", ⟨1, 2⟩⟩ := by decide +kernel
  have hread : readProgram least.text =
      .error (.scan ⟨.outOfRange "9223372036854775808", ⟨1, 2⟩⟩) := by
    unfold readProgram
    rw [hscan]
  have hleast := Interpreter.runWithin_of_error hread
  refine ⟨hleast, fun fuel => runWithin_int (by decide) fuel _, fun hback => ?_⟩
  obtain ⟨fuel, after, hrun⟩ := hback .minValue (.new .unlimited none)
  cases (hleast fuel _).symm.trans hrun

end TwinScript
