import TwinScript.Proofs.Syntax.LineBreaks
import TwinScript.Proofs.Syntax.Lookahead
import TwinScript.Proofs.Syntax.Taking
import Mathlib.Data.List.Nodup

/-!
# The first error

The parser reports one error, the first one, and what comes behind the token that it names does not
matter: whatever follows, the error is the same, and the tokens before that one are no error by
themselves.

An error names a token, and a list may hold equal ones. Which of them is meant shows when tokens are
written otherwise and stand elsewhere on their lines, as nothing of this makes a difference to the
grammar: the error follows the token (`FailsAt`). One way to write them makes all of them different
(`numbered`).

* `parse_settled`: where all tokens are different, an error at one of them depends on none behind.
* `FailsAt.of_numbered`: an error is where it is among the numbered tokens.
* `FailsAt.of_agree`, `FailsAt.none_before`: what comes behind an error, and what comes before it.
* `first_error_decides`: the result for all lists of tokens.
-/

namespace TwinScript

/-! ## Errors at an index -/

/-- The tokens are no program for the reason `fault`, and that shows at index `k`: of all tokens in
the same layout, the error names the one that is there. -/
structure FailsAt (tokens : List Token) (k : Nat) (fault : ParseFault) : Prop where
  lt_length : k < tokens.length
  names : ∀ tokens', SameLayout tokens tokens' → parse tokens' = .error ⟨fault, tokens'[k]?⟩

/-- Tokens of the same layout fail for the same reason, at tokens that stand at one index. -/
theorem SameLayout.parse_error {tokens tokens' : List Token} (h : SameLayout tokens tokens')
    {e : ParseError} (he : parse tokens = .error e) :
    ∃ e', parse tokens' = .error e' ∧ e.Like (Token.Paired tokens tokens') e' := by
  have hparse := parse_alike (Token.paired_tokensAt tokens tokens') h.marks_paired
  rw [he] at hparse
  generalize parse tokens' = answer at hparse ⊢
  cases hparse with
  | error hlike => exact ⟨_, rfl, hlike.mono fun _ _ ht => ht.2⟩

/-! ## Tokens that are all different -/

/-- The tokens with their index as their column. -/
def numbered (tokens : List Token) : List Token :=
  tokens.mapIdx fun i t => { t with pos := ⟨t.pos.line, i⟩ }

theorem length_numbered (tokens : List Token) : (numbered tokens).length = tokens.length :=
  List.length_mapIdx

theorem take_numbered (n : Nat) (tokens : List Token) :
    numbered (tokens.take n) = (numbered tokens).take n := by
  refine List.ext_getElem? fun i => ?_
  simp only [numbered, List.getElem?_mapIdx, List.getElem?_take]
  split <;> rfl

theorem numbered_nodup (tokens : List Token) : (numbered tokens).Nodup := by
  refine List.Nodup.of_map (·.pos.column) ?_
  have hcolumns : (numbered tokens).map (·.pos.column) = List.range tokens.length := by
    refine List.ext_getElem (by simp [numbered]) fun i hi hi' => ?_
    simp [numbered]
  rw [hcolumns]
  exact List.nodup_range

/-- The grammar does not look at columns. -/
theorem sameLayout_numbered (tokens : List Token) : SameLayout tokens (numbered tokens) := by
  have hkinds : tokens.map (·.kind) = (numbered tokens).map (·.kind) := by
    refine List.ext_getElem (by simp [numbered]) fun i hi hi' => ?_
    simp [numbered]
  have hlines : tokens.map (·.pos.line) = (numbered tokens).map (·.pos.line) := by
    refine List.ext_getElem (by simp [numbered]) fun i hi hi' => ?_
    simp [numbered]
  have hjoins (tokens : List Token) : lineJoins tokens =
      List.zipWith (fun before line => decide (line = before)) (tokens.map (·.pos.line))
        (tokens.map (·.pos.line)).tail := by
    rw [← List.map_tail, List.zipWith_map]
    rfl
  refine ⟨hkinds, ?_⟩
  rw [hjoins, hjoins, hlines]

/-- An error is where it is among the numbered tokens. -/
theorem FailsAt.of_numbered {tokens : List Token} {k : Nat} {fault : ParseFault}
    (hk : k < tokens.length)
    (h : parse (numbered tokens) = .error ⟨fault, (numbered tokens)[k]?⟩) :
    FailsAt tokens k fault := by
  refine ⟨hk, fun tokens' hsame => ?_⟩
  obtain ⟨e', hparse, hfault, htoken⟩ :=
    ((sameLayout_numbered tokens).symm.trans hsame).parse_error h
  have hk' : k < (numbered tokens).length := by rwa [length_numbered]
  rw [List.getElem?_eq_getElem hk'] at htoken
  obtain ⟨fault', token?⟩ := e'
  cases htoken with
  | some hpaired =>
    obtain ⟨i, hi, hi'⟩ := hpaired
    obtain rfl : k = i := (List.getElem?_inj hk' (numbered_nodup tokens)).mp
      (by rw [hi, List.getElem?_eq_getElem hk'])
    rw [hparse, hi']
    exact congrArg (fun f => Except.error (ParseError.mk f _)) hfault.symm

/-- There is one index at most. -/
theorem FailsAt.unique {tokens : List Token} {j k : Nat} {fault fault' : ParseFault}
    (h : FailsAt tokens j fault) (h' : FailsAt tokens k fault') : j = k := by
  have hj := h.names _ (sameLayout_numbered tokens)
  have hk := h'.names _ (sameLayout_numbered tokens)
  rw [hj] at hk
  have hlt : j < (numbered tokens).length := by
    rw [length_numbered]
    exact h.lt_length
  exact (List.getElem?_inj hlt (numbered_nodup tokens)).mp
    (congrArg ParseError.token? (Except.error.inj hk))

/-! ## What comes behind an error -/

theorem take_marks (n : Nat) (tokens : List Token) :
    (marks tokens).take n = marks (tokens.take n) := by
  have hafter (previous : Token) (n : Nat) (tokens : List Token) :
      (marksAfter previous tokens).take n = marksAfter previous (tokens.take n) := by
    induction tokens generalizing previous n with
    | nil => simp [marksAfter]
    | cons t rest ih =>
      cases n with
      | zero => rfl
      | succ n => exact congrArg (_ :: ·) (ih t n)
  cases tokens with
  | nil => simp [marks]
  | cons t rest =>
    cases n with
    | zero => rfl
    | succ n => exact congrArg (_ :: ·) (hafter t n rest)

theorem ParseError.eq_of_like {e e' : ParseError} (h : e.Like Eq e') : e = e' := by
  obtain ⟨fault, token?⟩ := e
  obtain ⟨fault', token?'⟩ := e'
  obtain ⟨rfl : fault = fault', htoken⟩ := h
  cases htoken with
  | none => rfl
  | some h => rw [h]

/-- More rounds than tokens make no difference to an error. -/
theorem parse_eq_error_of_rounds {tokens : List Token} {rounds : Nat}
    (h : tokens.length ≤ rounds) {e : ParseError} : parse tokens = .error e ↔
      program rounds (grammarWithin rounds maxNesting) (marks tokens) = .error e := by
  have hlength := length_marks tokens
  have htok : TokensAt Eq Eq := by
    rintro t _ rfl
    exact ⟨rfl, rfl⟩
  have hsame : List.Forall₂ (Mark.Like Eq) (marks tokens) (marks tokens) :=
    List.forall₂_same.mpr fun m _ => ⟨rfl, rfl⟩
  have hread := program_alike htok hsame (Nat.le_of_eq hlength) (hlength.symm ▸ h)
  rw [parse_eq]
  generalize (program tokens.length _ _).map Prod.fst = x at hread ⊢
  generalize program rounds _ _ = y at hread ⊢
  cases y with
  | ok r =>
    cases hread
    simp
  | error e' =>
    cases hread with
    | error hlike =>
      rw [ParseError.eq_of_like hlike]
      simp

/-- The token that an error names is settled, and so is the error by the tokens up to that one. -/
theorem exists_settled_of_parse {tokens : List Token} {rounds : Nat}
    (h : tokens.length ≤ rounds) {e : ParseError} (he : parse tokens = .error e)
    (htoken : e.token? ≠ none) :
    ∃ front m u, marks tokens = front ++ m :: u ∧ e.token? = some m.token ∧
      tokens[front.length]? = some m.token ∧
      ∀ u', FailsLike e (program rounds (grammarWithin rounds maxNesting) (front ++ m :: u')) := by
  have hsettled := program_settles rounds maxNesting (marks tokens)
  rw [(parse_eq_error_of_rounds h).mp he] at hsettled
  cases hsettled with
  | @error _ front u m hs hm hagain =>
    refine ⟨front, m, u, hs, hm, ?_, hagain⟩
    rw [← tokens_of_marks tokens, hs]
    simp
  | atEnd hnone => exact absurd hnone htoken

theorem exists_index_of_parse {tokens : List Token} {e : ParseError} (he : parse tokens = .error e)
    (htoken : e.token? ≠ none) : ∃ k < tokens.length, e.token? = tokens[k]? := by
  obtain ⟨front, m, u, -, hm, hindex, -⟩ := exists_settled_of_parse (Nat.le_refl _) he htoken
  obtain ⟨hlt, -⟩ := List.getElem?_eq_some_iff.mp hindex
  exact ⟨front.length, hlt, by rw [hm, hindex]⟩

/-- Where all tokens are different, an error at one of them depends on no token behind it. -/
theorem parse_settled {tokens : List Token} (hnodup : tokens.Nodup) {e : ParseError} {k : Nat}
    (he : parse tokens = .error e) (hk : k < tokens.length) (htoken : e.token? = tokens[k]?)
    {tokens' : List Token} (hagree : tokens'.take (k + 1) = tokens.take (k + 1)) :
    FailsLike e (parse tokens') := by
  have hsome : e.token? ≠ none := by
    rw [htoken, List.getElem?_eq_getElem hk]
    simp
  obtain ⟨front, m, u, hs, hm, hindex, hagain⟩ := exists_settled_of_parse
    (Nat.le_max_left tokens.length tokens'.length) he hsome
  obtain rfl : k = front.length := (List.getElem?_inj hk hnodup).mp (by rw [← htoken, hm, hindex])
  have hfront : (marks tokens').take (front.length + 1) = front ++ [m] := by
    rw [take_marks, hagree, ← take_marks, hs, List.append_cons]
    exact List.take_left' (by simp)
  obtain ⟨e', hread, hlike⟩ := hagain ((marks tokens').drop (front.length + 1))
  rw [List.append_cons, ← hfront, List.take_append_drop] at hread
  exact ⟨e', (parse_eq_error_of_rounds (Nat.le_max_right _ _)).mpr hread, hlike⟩

/-! ## The first error -/

theorem ParseError.Like.token?_eq_none_iff {tok : Token → Token → Prop} {e e' : ParseError}
    (h : e.Like tok e') : e.token? = none ↔ e'.token? = none := by
  have htoken := h.token?
  generalize e.token? = token? at htoken ⊢
  generalize e'.token? = token?' at htoken ⊢
  cases htoken <;> simp

theorem getElem?_of_take {tokens tokens' : List Token} {k : Nat}
    (h : tokens'.take (k + 1) = tokens.take (k + 1)) : tokens'[k]? = tokens[k]? := by
  rw [← List.getElem?_take_of_lt (Nat.lt_succ_self k), h,
    List.getElem?_take_of_lt (Nat.lt_succ_self k)]

/-- An error at a token is at some index. -/
theorem exists_failsAt {tokens : List Token} {e : ParseError} (he : parse tokens = .error e)
    (htoken : e.token? ≠ none) : ∃ k, FailsAt tokens k e.fault := by
  obtain ⟨named, hnamed, hlike⟩ := (sameLayout_numbered tokens).parse_error he
  obtain ⟨k, hk, hindex⟩ := exists_index_of_parse hnamed
    (fun hnone => htoken (hlike.token?_eq_none_iff.mpr hnone))
  rw [length_numbered] at hk
  refine ⟨k, .of_numbered hk ?_⟩
  rw [hnamed, hlike.fault_eq, ← hindex]

namespace FailsAt

variable {tokens : List Token} {k : Nat} {fault : ParseFault} (h : FailsAt tokens k fault)
include h

theorem parse_eq : parse tokens = .error ⟨fault, tokens[k]?⟩ := h.names _ (.refl tokens)

theorem lt_length_numbered : k < (numbered tokens).length := by
  rw [length_numbered]
  exact h.lt_length

/-- The error is the same whatever comes behind it. -/
theorem of_agree (hfault : fault ≠ .nestingTooDeep) {tokens' : List Token}
    (hagree : tokens'.take (k + 1) = tokens.take (k + 1)) : FailsAt tokens' k fault := by
  have hnumbered : (numbered tokens').take (k + 1) = (numbered tokens).take (k + 1) := by
    rw [← take_numbered, hagree, take_numbered]
  obtain ⟨e, he, -, heq⟩ := parse_settled (numbered_nodup tokens)
    (h.names _ (sameLayout_numbered tokens)) h.lt_length_numbered rfl hnumbered
  obtain rfl := heq hfault
  have hindex : (numbered tokens')[k]? = (numbered tokens)[k]? := getElem?_of_take hnumbered
  have hlength : k < (numbered tokens').length := by
    rw [List.getElem?_eq_getElem h.lt_length_numbered] at hindex
    exact (List.getElem?_eq_some_iff.mp hindex).1
  rw [length_numbered] at hlength
  refine .of_numbered hlength ?_
  rw [he, hindex]

/-- There is no error at a token before it: the whole list would fail as early. -/
theorem none_before (hfault : fault ≠ .nestingTooDeep) {e : ParseError}
    (he : parse (tokens.take k) = .error e) : e.token? = none := by
  by_contra hsome
  have hnodup := numbered_nodup tokens
  obtain ⟨early, hearly, hlike⟩ := (sameLayout_numbered (tokens.take k)).parse_error he
  rw [take_numbered] at hearly
  obtain ⟨j, hj, hindex⟩ := exists_index_of_parse hearly
    (fun hnone => hsome (hlike.token?_eq_none_iff.mpr hnone))
  have hjk : j < k := by
    rw [List.length_take] at hj
    omega
  have hagree : (numbered tokens).take (j + 1) = ((numbered tokens).take k).take (j + 1) := by
    rw [List.take_take, Nat.min_eq_left hjk]
  obtain ⟨e', hparse, hsame, heq⟩ := parse_settled (hnodup.sublist (List.take_sublist _ _)) hearly
    hj hindex hagree
  obtain rfl := Except.error.inj ((h.names _ (sameLayout_numbered tokens)).symm.trans hparse)
  obtain rfl := heq (hsame ▸ hfault)
  rw [List.getElem?_take_of_lt hjk] at hindex
  have hsameIndex := (List.getElem?_inj h.lt_length_numbered hnodup).mp hindex
  omega

end FailsAt

/-- **The first error decides.** An error at a token, other than for nesting, is at one index. It
stays the same and there, whatever comes behind, and what comes before is a program, or the
beginning of one that only lacks its end. -/
theorem first_error_decides {tokens : List Token} {e : ParseError} (he : parse tokens = .error e)
    (htoken : e.token? ≠ none) (hfault : e.fault ≠ .nestingTooDeep) :
    ∃ k, FailsAt tokens k e.fault ∧ (∀ j fault, FailsAt tokens j fault → j = k) ∧
      tokens[k]? = e.token? ∧
      (∀ tokens', tokens'.take (k + 1) = tokens.take (k + 1) →
        parse tokens' = .error e ∧ FailsAt tokens' k e.fault) ∧
      ∀ e', parse (tokens.take k) = .error e' → e'.token? = none := by
  obtain ⟨k, hfails⟩ := exists_failsAt he htoken
  have htokenAt : tokens[k]? = e.token? :=
    congrArg ParseError.token? (Except.error.inj (hfails.parse_eq.symm.trans he))
  refine ⟨k, hfails, fun j fault hj => hj.unique hfails, htokenAt, fun tokens' hagree => ?_,
    fun e' => hfails.none_before hfault⟩
  have hfails' := hfails.of_agree hfault hagree
  refine ⟨?_, hfails'⟩
  rw [hfails'.parse_eq, getElem?_of_take hagree, htokenAt]

/-- A sum that lacks an operand. -/
theorem first_error_decides_semicolon :
    let tokens : List Token := [⟨.integer 1, "1", ⟨1, 1⟩⟩, ⟨.symbol .plus, "+", ⟨1, 3⟩⟩,
      ⟨.symbol .semicolon, ";", ⟨1, 5⟩⟩, ⟨.integer 2, "2", ⟨1, 7⟩⟩]
    let e : ParseError := ⟨.unexpectedToken, some ⟨.symbol .semicolon, ";", ⟨1, 5⟩⟩⟩
    parse tokens = .error e ∧ e.token? ≠ none ∧ e.fault ≠ .nestingTooDeep ∧
      ∃ k, FailsAt tokens k e.fault ∧ (∀ j fault, FailsAt tokens j fault → j = k) ∧
        tokens[k]? = e.token? ∧
        (∀ tokens', tokens'.take (k + 1) = tokens.take (k + 1) →
          parse tokens' = .error e ∧ FailsAt tokens' k e.fault) ∧
        ∀ e', parse (tokens.take k) = .error e' → e'.token? = none := by
  intro tokens e
  have he : parse tokens = .error e := rfl
  have htoken : e.token? ≠ none := by decide
  have hfault : e.fault ≠ .nestingTooDeep := by decide
  exact ⟨he, htoken, hfault, first_error_decides he htoken hfault⟩

end TwinScript
