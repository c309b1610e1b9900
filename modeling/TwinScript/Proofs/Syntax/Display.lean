import TwinScript.Proofs.Token.Spelling
import TwinScript.Proofs.Syntax.Taking
import TwinScript.Proofs.Syntax.ReadBack.Programs
import TwinScript.Syntax.Display

/-!
# What expressions are shown as

The text that an expression is shown as is a program again: it scans to the tokens that write the
expression with every operator application in parentheses, all on one line, so it parses to the
expression, up to positions. Two expressions that differ in more than positions therefore look
different.

* `Expr.Showable`: the expressions that a program can write down, but for `println`, which is shown
  as a value.
* `Expr.spelled`: the text spells the tokens `Expr.shownKinds`.
* `Expr.written_of_kinds`: tokens of these kinds on one line write the expression.
* `expressions_display_faithfully`: the result.
-/

namespace TwinScript

/-! ## Expressions that can be shown -/

/-- A program can write the literal, and it is shown as it is written: a number without a sign, and
a string whose escapes the scanner knows. -/
def Literal.Showable : Literal → Prop
  | int n => 0 ≤ n.toInt
  | str s => ∀ c ∈ s.toList, HasShortForm c
  | bool _ => True
  | function _ => False
  | builtin _ => False
  | nothing => True

mutual

/-- A program can write the expression, and each literal in it is shown as it is written. -/
def Expr.Showable : Expr → Prop
  | literal _ value => value.Showable
  | var _ name => IsName name
  | unary _ op operand => (∃ s ∈ unaryOperators, op = .symbol s) ∧ operand.Showable
  | binary _ op left right =>
    (∃ s ∈ binaryOperators, op = .symbol s) ∧ left.Showable ∧ right.Showable
  | call _ callee args => callee.Showable ∧ Expr.AllShowable args

/-- Each of the expressions can be shown. -/
def Expr.AllShowable : List Expr → Prop
  | [] => True
  | e :: rest => e.Showable ∧ Expr.AllShowable rest

end

/-! ## The tokens of what is shown -/

mutual

/-- The kinds of the tokens that the expression is shown as. -/
def Expr.shownKinds : Expr → List Token.Kind
  | literal _ value => value.kind?.toList
  | var _ name => [.identifier name]
  | unary _ op operand =>
    .symbol .leftParen :: (op :: operand.shownKinds ++ [.symbol .rightParen])
  | binary _ op left right =>
    .symbol .leftParen ::
      (left.shownKinds ++ op :: right.shownKinds ++ [.symbol .rightParen])
  | call _ callee args =>
    callee.shownKinds ++ .symbol .leftParen :: (Expr.argsKinds args ++ [.symbol .rightParen])

/-- The kinds of the tokens that a call's arguments are shown as. -/
def Expr.argsKinds : List Expr → List Token.Kind
  | [] => []
  | [arg] => arg.shownKinds
  | arg :: rest => arg.shownKinds ++ .symbol .comma :: Expr.argsKinds rest

end

/-- What can be shown is written by a token. -/
theorem Literal.Showable.isSome_kind? {value : Literal} (h : value.Showable) :
    value.kind?.isSome := by
  rcases value with _ | _ | (_ | _) | _ | _ | _ <;> first | rfl | exact h.elim

theorem Literal.spelled {value : Literal} (h : value.Showable) :
    SpellsOperand value.text.toList value.kind?.toList := by
  cases value with
  | int n => exact .integer h
  | str s => exact .string h
  | bool b =>
    cases b with
    | true => exact .keyword (k := .trueWord) (by decide)
    | false => exact .keyword (k := .falseWord) (by decide)
  | function c => exact h.elim
  | builtin b => exact h.elim
  | nothing => exact .keyword (k := .noneWord) (by decide)

theorem Symbol.toList_text (s : Symbol) : s.text.toList = s.chars :=
  String.toList_ofList

theorem SpellsOperand.noArguments :
    SpellsOperand ['(', ')'] [.symbol .leftParen, .symbol .rightParen] := by
  have hclosing : SpellsOperand [')'] [.symbol .rightParen] :=
    ⟨.symbol .rightParen, ')', [], rfl, by decide⟩
  exact hclosing.behindPrefix (s := .leftParen) (by decide)

mutual

/-- An expression is shown as a text that spells its tokens. -/
theorem Expr.spelled : (e : Expr) → e.Showable → SpellsOperand e.text.toList e.shownKinds
  | .literal _ value, h => Literal.spelled h
  | .var _ name, h => .identifier h
  | .unary _ op operand, h => by
    obtain ⟨⟨s, hs, rfl⟩, hoperand⟩ := h
    have hplain : ∀ s ∈ unaryOperators, s.chars.head? ≠ some '=' := by decide
    have hinside := (operand.spelled hoperand).behindPrefix (hplain s hs)
    simpa [text, shownKinds, Token.Kind.text, Symbol.toList_text] using hinside.enclosed
  | .binary _ op left right, h => by
    obtain ⟨⟨s, -, rfl⟩, hleft, hright⟩ := h
    have hbehind := ((right.spelled hright).behindBlank.behindSymbol s).behindBlank
    have hinside := (left.spelled hleft).append hbehind.toSpells (by decide)
    simpa [text, shownKinds, Token.Kind.text, Symbol.toList_text] using hinside.enclosed
  | .call _ callee args, h => by
    have hargs : SpellsOperand ('(' :: ((Expr.argsText args).toList ++ [')']))
        (.symbol .leftParen :: (Expr.argsKinds args ++ [.symbol .rightParen])) := by
      by_cases hnone : args = []
      · subst hnone
        exact SpellsOperand.noArguments
      · exact (Expr.argsSpelled args h.2 hnone).enclosed
    have hcall := (callee.spelled h.1).append hargs.toSpells (by decide)
    simpa [text, shownKinds] using hcall

/-- Arguments are shown as a text that spells their tokens. -/
theorem Expr.argsSpelled : (args : List Expr) → Expr.AllShowable args → args ≠ [] →
    SpellsOperand (Expr.argsText args).toList (Expr.argsKinds args)
  | [], _, hne => absurd rfl hne
  | [arg], h, _ => arg.spelled h.1
  | arg :: next :: rest, h, _ => by
    have hrest := Expr.argsSpelled (next :: rest) h.2 (List.cons_ne_nil _ _)
    have hall := (arg.spelled h.1).append (hrest.behindBlank.behindSymbol .comma) (by decide)
    simpa [argsText, argsKinds] using hall

end

/-! ## The tokens write the expression -/

/-- Tokens with a pair of parentheses around them. -/
theorem exists_enclosed {ms : List Mark} {kinds : List Token.Kind}
    (h : ms.map (·.token.kind) = .symbol .leftParen :: (kinds ++ [.symbol .rightParen])) :
    ∃ opening inside closing, ms = opening :: inside ++ [closing] ∧
      opening.token.kind = .symbol .leftParen ∧ inside.map (·.token.kind) = kinds ∧
      closing.token.kind = .symbol .rightParen := by
  obtain ⟨opening, behind, rfl, hopening, hbehind⟩ := List.map_eq_cons_iff.mp h
  obtain ⟨inside, last, rfl, hinside, hlast⟩ := List.map_eq_append_iff.mp hbehind
  obtain ⟨closing, rfl, hclosing⟩ := List.map_eq_singleton_iff.mp hlast
  exact ⟨opening, inside, closing, rfl, hopening, hinside, hclosing⟩

mutual

/-- Tokens of the kinds that an expression is shown as write the expression, if all but the first
are on the line of the token before. -/
theorem Expr.written_of_kinds : (e : Expr) → e.Showable → ∀ {d}, e.depth ≤ d → ∀ {ms : List Mark},
    ms.map (·.token.kind) = e.shownKinds → (∀ m ∈ ms.tail, m.joined = true) → e.Written d ms
  | .literal _ value, h, _, _, ms, hkinds, _ => by
    obtain ⟨kind, hkind⟩ := Option.isSome_iff_exists.mp h.isSome_kind?
    rw [Expr.shownKinds, hkind] at hkinds
    obtain ⟨m, rfl, hm⟩ := List.map_eq_singleton_iff.mp hkinds
    exact .literal (hm ▸ hkind)
  | .var _ name, _, _, _, ms, hkinds, _ => by
    obtain ⟨m, rfl, hm⟩ := List.map_eq_singleton_iff.mp hkinds
    exact .var hm
  | .unary _ op operand, h, d, hd, ms, hkinds, hline => by
    obtain ⟨⟨s, hs, rfl⟩, hoperand⟩ := h
    rw [depth] at hd
    have hroom : operand.depth ≤ d - 2 := by omega
    obtain ⟨opening, inside, closing, rfl, hopening, hinside, hclosing⟩ := exists_enclosed hkinds
    obtain ⟨sign, os, rfl, hsign, hos⟩ := List.map_eq_cons_iff.mp hinside
    have hjoined : ∀ m ∈ os.tail, m.joined = true := fun m hm =>
      hline m (by simp [List.mem_of_mem_tail hm])
    exact .unary (by omega) hopening hs hsign (operand.written_of_kinds hoperand hroom hos hjoined)
      hclosing
  | .binary _ op left right, h, d, hd, ms, hkinds, hline => by
    obtain ⟨⟨s, hs, rfl⟩, hleft, hright⟩ := h
    rw [depth] at hd
    have hroomLeft : left.depth ≤ d - 1 := by omega
    have hroomRight : right.depth ≤ d - 1 := by omega
    obtain ⟨opening, inside, closing, rfl, hopening, hinside, hclosing⟩ := exists_enclosed hkinds
    obtain ⟨ls, behind, rfl, hls, hbehind⟩ := List.map_eq_append_iff.mp hinside
    obtain ⟨sign, rs, rfl, hsign, hrs⟩ := List.map_eq_cons_iff.mp hbehind
    have hjoinedLeft : ∀ m ∈ ls.tail, m.joined = true := fun m hm =>
      hline m (by simp [List.mem_of_mem_tail hm])
    have hjoinedSign : sign.joined = true := hline sign (by simp)
    have hjoinedRight : ∀ m ∈ rs.tail, m.joined = true := fun m hm =>
      hline m (by simp [List.mem_of_mem_tail hm])
    exact .binary (by omega) hopening (left.written_of_kinds hleft hroomLeft hls hjoinedLeft) hs
      hsign (fun _ => hjoinedSign) (right.written_of_kinds hright hroomRight hrs hjoinedRight)
      hclosing
  | .call _ callee args, h, d, hd, ms, hkinds, hline => by
    rw [depth] at hd
    have hroomCallee : callee.depth ≤ d := by omega
    have hroomArgs : depthInside args ≤ d := by omega
    obtain ⟨cs, behind, rfl, hcs, hbehind⟩ := List.map_eq_append_iff.mp hkinds
    obtain ⟨opening, inside, closing, rfl, hopening, hinside, hclosing⟩ := exists_enclosed hbehind
    have hjoined : ∀ m ∈ cs.tail, m.joined = true := by
      intro m hm
      cases cs with
      | nil => exact absurd hm List.not_mem_nil
      | cons first more => exact hline m (List.mem_append_left _ hm)
    have hcallee := callee.written_of_kinds h.1 hroomCallee hcs hjoined
    -- The callee has a token, so all tokens of the arguments are behind the first.
    obtain ⟨first, more, rfl⟩ := List.exists_cons_of_ne_nil hcallee.ne_nil
    have hargs := Expr.separated_of_kinds args h.2 hroomArgs hinside fun m hm =>
      hline m (by simp [hm])
    have hdeep : args ≠ [] → d - 1 < d := by
      cases args with
      | nil => exact fun h => absurd rfl h
      | cons e rest =>
        rw [depthInside] at hroomArgs
        omega
    rw [← List.append_assoc]
    exact .call hcallee hopening (hline opening (by simp)) hdeep hargs (fun _ _ h => h) hclosing

/-- Tokens of the kinds that arguments are shown as write the arguments, if all are on the line of
the token before. -/
theorem Expr.separated_of_kinds : (args : List Expr) → Expr.AllShowable args → ∀ {d},
    Expr.depthInside args ≤ d → ∀ {ms : List Mark}, ms.map (·.token.kind) = Expr.argsKinds args →
    (∀ m ∈ ms, m.joined = true) → Separated (Expr.Written (d - 1)) args ms
  | [], _, _, _, ms, hkinds, _ => by
    obtain rfl := List.map_eq_nil_iff.mp hkinds
    exact .nil
  | [arg], h, d, hd, ms, hkinds, hline => by
    rw [depthInside] at hd
    have hroom : arg.depth ≤ d - 1 := by omega
    have harg := arg.written_of_kinds h.1 hroom hkinds fun m hm => hline m (List.mem_of_mem_tail hm)
    rw [← List.append_nil ms]
    exact .cons harg .nil
  | arg :: next :: rest, h, d, hd, ms, hkinds, hline => by
    rw [depthInside] at hd
    have hroom : arg.depth ≤ d - 1 := by omega
    have hroomRest : depthInside (next :: rest) ≤ d := by omega
    obtain ⟨as, behind, rfl, has, hbehind⟩ := List.map_eq_append_iff.mp hkinds
    obtain ⟨comma, ns, rfl, hcomma, hns⟩ := List.map_eq_cons_iff.mp hbehind
    have harg := arg.written_of_kinds h.1 hroom has fun m hm =>
      hline m (by simp [List.mem_of_mem_tail hm])
    have hrest := Expr.separated_of_kinds (next :: rest) h.2 hroomRest hns fun m hm =>
      hline m (by simp [hm])
    cases hrest with
    | cons hnext hrest => exact .cons harg (.cons hcomma hnext hrest)

end

/-- On one line, all tokens but the first are joined. -/
theorem joined_of_marks {tokens : List Token} {line : Nat} (h : ∀ t ∈ tokens, t.pos.line = line) :
    ∀ m ∈ (marks tokens).tail, m.joined = true := by
  cases tokens with
  | nil => exact fun m hm => absurd hm List.not_mem_nil
  | cons t rest =>
    obtain ⟨ht, hrest⟩ := List.forall_mem_cons.mp h
    rw [marks, List.tail_cons, marksAfter_eq_onLine ht hrest, onLine, List.forall_mem_map]
    exact fun _ _ => rfl

/-- The tokens that an expression is shown as write it as a program. -/
theorem Expr.allWritten_of_kinds {e : Expr} (h : e.Showable) {tokens : List Token}
    (hkinds : tokens.map (·.kind) = e.shownKinds) {line : Nat}
    (hline : ∀ t ∈ tokens, t.pos.line = line) :
    Stmt.AllWritten (e.depth + 1) [.expr e] (marks tokens) := by
  have hmarks : (marks tokens).map (·.token.kind) = e.shownKinds := by
    rw [← hkinds, ← Function.comp_def, ← List.map_map, tokens_of_marks]
  have hwritten := e.written_of_kinds h (Nat.le_refl _) hmarks (joined_of_marks hline)
  have hfirst : (marks tokens).head?.any (·.joined) = false := by
    cases tokens <;> rfl
  rw [← List.append_nil (marks tokens)]
  exact .cons (.expr (Nat.lt_succ_self _) hwritten) hfirst .nil

/-! ## What is shown is read back -/

/-- Tokens that write an expression as a program are parsed to it, or refused as nested too deep. -/
theorem Expr.parse_of_allWritten {e : Expr} {d : Nat} {tokens : List Token}
    (h : Stmt.AllWritten d [.expr e] (marks tokens)) :
    (∃ e', parse tokens = .ok [.expr e'] ∧ e.Same e') ∨
      maxNesting < d ∧ ∃ token?, parse tokens = .error ⟨.nestingTooDeep, token?⟩ := by
  refine (h.parses ⟨trivial, trivial⟩).imp_left fun ⟨program', hparse, hsame⟩ => ?_
  obtain ⟨s, rest, hs, hrest, rfl⟩ := List.forall₂_cons_left_iff.mp hsame
  obtain rfl := List.forall₂_nil_left_iff.mp hrest
  cases hs with
  | expr hs => exact ⟨_, hparse, hs⟩

/-- The text is not refused for being nested too deep. -/
def WithinNesting (text : String) : Prop :=
  ∀ tokens token?, tokenize text = .ok tokens → parse tokens ≠ .error ⟨.nestingTooDeep, token?⟩

/-- The text that an expression is shown as scans, and is parsed to the expression. -/
theorem Expr.text_reads {e : Expr} (h : e.Showable) :
    ∃ tokens, tokenize e.text = .ok tokens ∧
      ((∃ e', parse tokens = .ok [.expr e'] ∧ e.Same e') ∨
        maxNesting < e.depth + 1 ∧ ∃ token?, parse tokens = .error ⟨.nestingTooDeep, token?⟩) := by
  obtain ⟨tokens, htokens, hkinds, hline⟩ := (e.spelled h).toSpells.tokenize
  exact ⟨tokens, htokens, Expr.parse_of_allWritten (Expr.allWritten_of_kinds h hkinds hline)⟩

/-- **Expressions look like what they are.** The text that an expression is shown as scans, and the
tokens are parsed to this one expression, up to positions; or they are refused as nested too deep,
which they are only if the expression is nested deeper than the grammar allows. So if an expression
that is not nested too deep is shown as another one is, the two are the same up to positions. -/
theorem expressions_display_faithfully {e : Expr} (h : e.Showable) :
    (∃ tokens, tokenize e.text = .ok tokens ∧
      ((∃ e', parse tokens = .ok [.expr e'] ∧ e.Same e') ∨
        maxNesting < e.depth + 1 ∧ ∃ token?, parse tokens = .error ⟨.nestingTooDeep, token?⟩)) ∧
      ∀ e', Expr.Showable e' → WithinNesting e.text → e.text = e'.text → e.Same e' := by
  refine ⟨Expr.text_reads h, fun e' h' hwithin htext => ?_⟩
  obtain ⟨tokens, htokens, hread⟩ := Expr.text_reads h
  obtain ⟨tokens', htokens', hread'⟩ := Expr.text_reads h'
  obtain rfl : tokens = tokens' := by
    rw [htext, htokens'] at htokens
    cases htokens
    rfl
  have hnotDeep : ∀ token?, parse tokens ≠ .error ⟨.nestingTooDeep, token?⟩ :=
    fun token? => hwithin tokens token? htokens
  obtain ⟨read, hread, hsame⟩ := hread.resolve_right fun ⟨_, token?, hdeep⟩ => hnotDeep _ hdeep
  obtain ⟨read', hread', hsame'⟩ := hread'.resolve_right fun ⟨_, token?, hdeep⟩ => hnotDeep _ hdeep
  obtain rfl : read = read' := by
    rw [hread] at hread'
    cases hread'
    rfl
  exact e.like_of_common (fun _ _ _ _ _ => trivial) hsame hsame'

/-- The difference that is called, the sign before the number and the quotation mark inside the
string are read back. -/
theorem expressions_display_faithfully_call_of_difference :
    let e (pos : Position) : Expr := .call pos (.binary pos (.symbol .minus) (.var pos "f")
      (.unary pos (.symbol .minus) (.literal pos (.int 1))))
      [.literal pos (.str "say \"hi\""), .literal pos (.bool true)]
    (e ⟨0, 0⟩).text = "(f - (-1))(\"say \\\"hi\\\"\", true)" ∧ (e ⟨0, 0⟩).Showable ∧
      (∃ tokens e', tokenize (e ⟨0, 0⟩).text = .ok tokens ∧ parse tokens = .ok [.expr e'] ∧
        (e ⟨0, 0⟩).Same e') ∧
      WithinNesting (e ⟨0, 0⟩).text ∧ (e ⟨0, 0⟩).Same (e ⟨1, 1⟩) := by
  intro e
  have hname : IsName "f" := ⟨⟨'f', [], rfl, by decide, List.forall_mem_nil _⟩, by decide⟩
  have hnumber : 0 ≤ (1 : Int64).toInt := by decide
  have hshort : "say \"hi\"".toList.all (fun c => decide (HasShortForm c)) = true := by decide
  have hstring : ∀ c ∈ "say \"hi\"".toList, HasShortForm c := fun c hc =>
    of_decide_eq_true (List.all_eq_true.mp hshort c hc)
  have hshowable (pos : Position) : (e pos).Showable :=
    ⟨⟨⟨.minus, by decide, rfl⟩, hname, ⟨.minus, by decide, rfl⟩, hnumber⟩,
      hstring, trivial, trivial⟩
  have hfaithful := expressions_display_faithfully (hshowable ⟨0, 0⟩)
  obtain ⟨tokens, htokens, hread⟩ := hfaithful.1
  obtain ⟨e', hread, hsame⟩ := hread.resolve_right fun h => absurd h.1 (by decide)
  have hwithin : WithinNesting (e ⟨0, 0⟩).text := by
    intro tokens' token? htokens' hdeep
    rw [htokens] at htokens'
    cases htokens'
    rw [hread] at hdeep
    cases hdeep
  exact ⟨by decide +kernel, hshowable _, ⟨tokens, e', htokens, hread, hsame⟩, hwithin,
    hfaithful.2 (e ⟨1, 1⟩) (hshowable _) hwithin rfl⟩

end TwinScript
