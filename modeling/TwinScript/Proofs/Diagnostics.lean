import TwinScript.Proofs.Eval.Control
import TwinScript.Proofs.Eval.Likeness
import TwinScript.Proofs.Syntax.Grammatical
import TwinScript.Proofs.Syntax.Openings
import TwinScript.Proofs.Token.Tiling

/-!
# Errors point into the text

The position that an error names has come a long way: from the scanner to a token, from there to a
tree, and with the body of a function into the heap. `Diagnosed` says what stands in the text where
an error points to.

* `munch_error_shownBy`: what stands where no lexeme can be read.
* `Token.StandsIn`: the tokens of a text stand where their positions say.
* `Interpreter.executeWithin_error_at`: an error at run time names a position of the program, or of
  a function that was bound before.
* `errors_point_into_text`: so for every text that is run on a new interpreter.
-/

namespace TwinScript

/-! ## Faults of the scanner -/

/-- What stands in a text where it cannot be read on. -/
inductive ScanFault.ShownBy : ScanFault → List Char → Prop
  /-- A character that opens neither a gap nor a lexeme. -/
  | unexpectedCharacter {c : Char} {cs : List Char} (hgap : ¬ OpensGap c)
      (hsymbol : Symbol.opening? (c :: cs) = none) (hquote : ¬ isQuote c = true)
      (hdigit : ¬ c.isDigit = true) (hword : ¬ isWordStart c = true) :
      ShownBy (.unexpectedCharacter c) (c :: cs)
  /-- A quotation mark behind which the string does not close. -/
  | unterminatedString {quote : Char} {body : List Char} (hquote : isQuote quote = true)
      (hopen : munchString quote [] [quote] body = none) :
      ShownBy .unterminatedString (quote :: body)
  /-- All the digits of a number that is too large. -/
  | outOfRange {digits rest : List Char} (hsome : digits ≠ [])
      (hdigits : ∀ c ∈ digits, c.isDigit = true)
      (hend : ∀ c, rest.head? = some c → c.isDigit = false)
      (hlarge : integerBound ≤ decimalValue digits) :
      ShownBy (.outOfRange (String.ofList digits)) (digits ++ rest)

/-- Where no lexeme can be read, the text shows why. -/
theorem munch_error_shownBy {c : Char} {cs : List Char} {fault : ScanFault} (hgap : ¬ OpensGap c)
    (h : munch c cs = .error fault) : fault.ShownBy (c :: cs) := by
  unfold munch at h
  split at h
  · cases h
  · next hsymbol =>
    split at h
    · next hquote =>
      split at h
      · cases h
      · next hopen =>
        cases h
        exact .unterminatedString hquote hopen
    · next hquote =>
      split at h
      · next hdigit =>
        unfold munchInteger at h
        dsimp only at h
        split at h
        · cases h
        · next hlarge =>
          cases h
          have hsplit : c :: cs =
              (c :: cs.takeWhile Char.isDigit) ++ cs.dropWhile Char.isDigit := by simp
          rw [hsplit]
          refine .outOfRange (List.cons_ne_nil _ _) ?_ (fun d hd => ?_) (Nat.le_of_not_lt hlarge)
          · exact List.forall_mem_cons.mpr ⟨hdigit, fun d hd => List.mem_takeWhile_imp hd⟩
          · have hnot := List.head?_dropWhile_not Char.isDigit cs
            rwa [hd] at hnot
      · next hdigit =>
        split at h
        · cases h
        · next hword =>
          cases h
          exact .unexpectedCharacter hgap hsymbol hquote hdigit hword

/-! ## Tokens in their text -/

/-- The text has the lexeme of the token where its position says. -/
def Token.StandsIn (t : Token) (text : List Char) : Prop :=
  t.lexeme.toList ≠ [] ∧
    ∃ before after, text = before ++ t.lexeme.toList ++ after ∧ t.pos = .behind before

theorem Tiled.standsIn {text done : List Char} {tokens : List Token} (h : Tiled text done tokens)
    {t : Token} (ht : t ∈ tokens) : t.StandsIn text := by
  induction h with
  | nil => cases ht
  | @snoc done gap tail rest c kind tokens _ htext _ _ _ ih =>
    rcases List.mem_append.mp ht with ht | ht
    · exact ih ht
    · obtain rfl := List.mem_singleton.mp ht
      refine ⟨by simp, done ++ gap, rest, ?_, rfl⟩
      rw [String.toList_ofList]
      exact htext

/-- Scanning finds tokens that stand in the text; where it fails, the text shows why. -/
theorem tokenize_standsIn (text : String) :
    (∀ tokens, tokenize text = .ok tokens → ∀ t ∈ tokens, t.StandsIn text.toList) ∧
      ∀ e, tokenize text = .error e → ∃ before rest, text.toList = before ++ rest ∧
        e.pos = .behind before ∧ e.fault.ShownBy rest := by
  have hstart : Tiled text.toList [] ([] : List Token).reverse := .nil
  obtain ⟨read, after, htext, htiled, hend⟩ := scanOn_tiles hstart (List.nil_append _).symm rfl
  unfold tokenize
  rcases hend with ⟨hnone, -⟩ | ⟨e, gap, c, cs, hsome, -, hafter, -, hc, hfault, hpos⟩
  · have hdone : (scan text).error? = none := hnone
    simp only [hdone]
    refine ⟨fun tokens htokens t ht => ?_, fun e he => by cases he⟩
    cases htokens
    exact htiled.standsIn ht
  · have hfailed : (scan text).error? = some e := hsome
    simp only [hfailed]
    refine ⟨fun tokens htokens => (by cases htokens), fun e' he => ?_⟩
    cases he
    refine ⟨read ++ gap, c :: cs, ?_, hpos, munch_error_shownBy hc hfault⟩
    rw [htext, hafter, List.append_assoc]

/-! ## Errors at run time -/

theorem EvalError.Like.at_self {place : Position → Position → Prop} {e : EvalError}
    (h : e.Like place e) {p : Position} (hp : e.pos? = some p) : place p p := by
  cases h <;> cases hp <;> assumption

/-- **An error at run time** names a position in the program, or in a function that was bound before
it: a run is alike to itself whatever is asked of the positions in these. -/
theorem Interpreter.executeWithin_error_at {P : Position → Prop} {it after : Interpreter}
    (hheap : ∀ p, it.heap.Holds p → P p) {program : List Stmt}
    (hprogram : ∀ p ∈ Stmt.allPlaces program, P p) {fuel : Nat} {e : EvalError}
    (h : it.executeWithin fuel program = some (.error e, after)) {p : Position}
    (hp : e.pos? = some p) : P p := by
  have hit : it.Like (fun p _ => P p) it := it.like_self hheap
  have hsame : Stmt.AllLike (fun p _ => P p) program program := Stmt.allLike_self program hprogram
  have hself := Interpreter.executeWithin_alike fuel hit hsame
  rw [h] at hself
  cases hself with
  | some hends =>
    cases hends.1 with
    | error he => exact he.at_self hp

/-- Nothing is bound at first, and so no function. -/
theorem Heap.not_holds_initial (p : Position) : ¬ Heap.initial.Holds p := by
  rintro ⟨frame, hframe, b, hb, -⟩
  obtain rfl : frame = ⟨none, []⟩ := by simpa [initial] using hframe
  cases hb

/-- An error that names no position is a stray signal or one of the output. -/
theorem EvalError.pos?_eq_none {e : EvalError} (h : e.pos? = none) :
    (∃ k, e = .strayControl k) ∨ ∃ cause, e = .output cause := by
  cases e with
  | strayControl k => exact .inl ⟨k, rfl⟩
  | output cause => exact .inr ⟨cause, rfl⟩
  | _ => cases h

/-! ## Runs of texts -/

/-- What stands in the text at the position of an error. Only an error of parsing at the end of the
text and one of the output have none. -/
inductive Diagnosed (text : String) : ProgramError → Option Position → Prop
  /-- A character, a string or a number that cannot be read. -/
  | scan {e : ScanError} {before rest : List Char} (htext : text.toList = before ++ rest)
      (hfault : e.fault.ShownBy rest) : Diagnosed text (.scan e) (some (.behind before))
  /-- A token of the text. -/
  | parse {e : ParseError} {tokens : List Token} {t : Token} (htokens : tokenize text = .ok tokens)
      (ht : t ∈ tokens) (hplace : t.StandsIn text.toList) (he : e.token? = some t) :
      Diagnosed text (.parse e) (some t.pos)
  /-- The end of the text. -/
  | parseAtEnd {e : ParseError} (he : e.FoundAt []) : Diagnosed text (.parse e) none
  /-- An operator, a literal, a name or the keyword of a loop. -/
  | eval {e : EvalError} {tokens : List Token} {t : Token} (htokens : tokenize text = .ok tokens)
      (ht : t ∈ tokens) (hplace : t.StandsIn text.toList) (hkind : t.kind.CanFail) :
      Diagnosed text (.eval e) (some t.pos)
  /-- Nothing, as the output failed. -/
  | output (cause : SinkError) : Diagnosed text (.eval (.output cause)) none

theorem readProgram_diagnosed {text : String} {e : ProgramError}
    (h : readProgram text = .error e) : Diagnosed text e e.pos? := by
  obtain ⟨hstands, hshown⟩ := tokenize_standsIn text
  unfold readProgram at h
  split at h
  · next scanError hscan =>
    cases h
    obtain ⟨before, rest, htext, hpos, hfault⟩ := hshown scanError hscan
    rw [ProgramError.pos?, hpos]
    exact .scan htext hfault
  · next tokens htokens =>
    split at h
    · next parseError hparse =>
      cases h
      obtain ⟨left, hleft, hfound⟩ := parse_error_found hparse
      rw [ProgramError.pos?, ParseError.pos?, hfound.token?_eq]
      cases left with
      | nil => exact .parseAtEnd hfound
      | cons m rest =>
        have ht : m.token ∈ tokens := by
          rw [← tokens_of_marks tokens]
          exact List.mem_map_of_mem (hleft.subset List.mem_cons_self)
        exact .parse htokens ht (hstands tokens htokens _ ht) hfound.token?_eq
    · cases h

/-- **Errors point into the text.** Whatever text is run on a new interpreter, with any limit and
any output: the position of an error is that of a character, a string or a number that cannot be
read, of a token at which parsing fails, or of an operator, a literal, a name or the keyword of a
loop. Only an error of parsing at the end of the text and one of the output have no position. -/
theorem errors_point_into_text {sink : Sink} {limit? : Option Nat} {fuel : Nat} {text : String}
    {e : ProgramError} {after : Interpreter}
    (h : (Interpreter.new sink limit?).runWithin fuel text = some (.error e, after)) :
    Diagnosed text e e.pos? := by
  cases hread : readProgram text with
  | error e' =>
    rw [Interpreter.runWithin_of_error hread] at h
    cases h
    exact readProgram_diagnosed hread
  | ok program =>
    obtain ⟨tokens, htokens, hparse⟩ := readProgram_eq_ok.mp hread
    obtain ⟨e, rfl, hexecute⟩ := Interpreter.executeWithin_of_runWithin_error hread h
    rw [ProgramError.pos?]
    cases hpos : e.pos? with
    | some p =>
      have hplace : ∃ t ∈ tokens, t.pos = p ∧ t.kind.CanFail :=
        Interpreter.executeWithin_error_at (fun q hq => absurd hq (Heap.not_holds_initial q))
          (fun q hq => parse_places hparse hq) hexecute hpos
      obtain ⟨t, ht, rfl, hkind⟩ := hplace
      exact .eval htokens ht ((tokenize_standsIn text).1 tokens htokens t ht) hkind
    | none =>
      rcases EvalError.pos?_eq_none hpos with ⟨k, rfl⟩ | ⟨cause, rfl⟩
      · have hreceived := (Interpreter.runWithin_contained Heap.contained_initial h).2 _ rfl
        exact absurd rfl (hreceived k)
      · exact .output cause

/-- A quotient in the body of a function is where the error points to, not the call. -/
theorem errors_point_into_text_of_function :
    let text := "fn f() \x7b return 1 / 0 \x7d f()"
    ∃ after, (Interpreter.new .unlimited none).runWithin 9 text =
        some (.error (.eval (.divisionByZero ⟨1, 19⟩)), after) ∧
      Diagnosed text (.eval (.divisionByZero ⟨1, 19⟩)) (some ⟨1, 19⟩) := by
  intro text
  have htokens : tokenize text = .ok [⟨.keyword .fnWord, "fn", ⟨1, 1⟩⟩,
      ⟨.identifier "f", "f", ⟨1, 4⟩⟩, ⟨.symbol .leftParen, "(", ⟨1, 5⟩⟩,
      ⟨.symbol .rightParen, ")", ⟨1, 6⟩⟩, ⟨.symbol .leftBrace, "\x7b", ⟨1, 8⟩⟩,
      ⟨.keyword .returnWord, "return", ⟨1, 10⟩⟩, ⟨.integer 1, "1", ⟨1, 17⟩⟩,
      ⟨.symbol .slash, "/", ⟨1, 19⟩⟩, ⟨.integer 0, "0", ⟨1, 21⟩⟩,
      ⟨.symbol .rightBrace, "\x7d", ⟨1, 23⟩⟩, ⟨.identifier "f", "f", ⟨1, 25⟩⟩,
      ⟨.symbol .leftParen, "(", ⟨1, 26⟩⟩, ⟨.symbol .rightParen, ")", ⟨1, 27⟩⟩] := by
    decide +kernel
  have hread : readProgram text = .ok [.function "f" [] [.returnValue (some (.binary ⟨1, 19⟩
      (.symbol .slash) (.literal ⟨1, 17⟩ (.int 1)) (.literal ⟨1, 21⟩ (.int 0))))],
      .expr (.call ⟨1, 25⟩ (.var ⟨1, 25⟩ "f") [])] :=
    readProgram_eq_ok.mpr ⟨_, htokens, rfl⟩
  have hrun : ∃ after, (Interpreter.new .unlimited none).runWithin 9 text =
      some (.error (.eval (.divisionByZero ⟨1, 19⟩)), after) := by
    rw [Interpreter.runWithin_of_ok hread]
    exact ⟨_, rfl⟩
  obtain ⟨after, hrun⟩ := hrun
  exact ⟨after, hrun, errors_point_into_text hrun⟩

end TwinScript
