import TwinScript.Proofs.Token.Munch

/-!
# Texts as gaps and lexemes

`Scans p text tokens` says that a text, read from the position `p` on, is a gap, a lexeme, a gap, a
lexeme and so on to a last gap, and that `tokens` are the lexemes read. It is what scanning to the
end of a text means (`tokenize_eq_ok`), without the order in which a scanner goes about it.
-/

namespace TwinScript

/-! ## Positions -/

namespace Position

/-- The same column, some lines further down. -/
def down (p : Position) (lines : Nat) : Position := ⟨p.line + lines, p.column⟩

theorem afterAll_down (p : Position) (lines : Nat) (cs : List Char) :
    (p.down lines).afterAll cs = (p.afterAll cs).down lines := by
  induction cs generalizing p with
  | nil => rfl
  | cons c cs ih =>
    have hafter : (p.down lines).after c = (p.after c).down lines := by
      unfold after down
      split
      · simp only [Position.mk.injEq, and_true]
        omega
      · rfl
    rw [afterAll_cons, afterAll_cons, hafter, ih]

/-- Every newline leads one line further down. -/
theorem line_afterAll (p : Position) (cs : List Char) :
    (p.afterAll cs).line = p.line + cs.count '\n' := by
  induction cs generalizing p with
  | nil => rfl
  | cons c cs ih =>
    rw [afterAll_cons, ih, List.count_cons]
    unfold after
    split
    · next hc => simp [hc]; omega
    · next hc => simp [hc]

/-- Earlier in a text. -/
def Before (p q : Position) : Prop :=
  p.line < q.line ∨ p.line = q.line ∧ p.column < q.column

theorem Before.trans {p q r : Position} (hpq : p.Before q) (hqr : q.Before r) : p.Before r := by
  unfold Before at *
  omega

theorem before_after (p : Position) (c : Char) : p.Before (p.after c) := by
  unfold Before after
  split
  · exact .inl (Nat.lt_succ_self _)
  · exact .inr ⟨rfl, Nat.lt_succ_self _⟩

theorem before_afterAll (p : Position) {cs : List Char} (h : cs ≠ []) : p.Before (p.afterAll cs) := by
  induction cs generalizing p with
  | nil => exact absurd rfl h
  | cons c cs ih =>
    rw [afterAll_cons]
    by_cases hcs : cs = []
    · rw [hcs, afterAll_nil]
      exact p.before_after c
    · exact (p.before_after c).trans (ih _ hcs)

/-- Reading on leads away from where it began. -/
theorem eq_nil_of_afterAll_eq {p : Position} {cs : List Char} (h : p.afterAll cs = p) : cs = [] := by
  by_contra hcs
  have hbefore := p.before_afterAll hcs
  rw [h] at hbefore
  unfold Before at hbefore
  omega

/-- Of two beginnings of one text that end at the same place, neither goes further. -/
theorem append_inj_of_afterAll {p : Position} {cs ds us vs : List Char} (h : cs ++ us = ds ++ vs)
    (hpos : p.afterAll cs = p.afterAll ds) : cs = ds ∧ us = vs := by
  rcases List.append_eq_append_iff.mp h with ⟨ws, hds, hus⟩ | ⟨ws, hcs, hvs⟩
  · rw [hds, afterAll_append] at hpos
    have hws := eq_nil_of_afterAll_eq hpos.symm
    rw [hws] at hds hus
    exact ⟨by simpa using hds.symm, by simpa using hus⟩
  · rw [hcs, afterAll_append] at hpos
    have hws := eq_nil_of_afterAll_eq hpos
    rw [hws] at hcs hvs
    exact ⟨by simpa using hcs, by simpa using hvs.symm⟩

end Position

/-! ## Gaps -/

/-- Whether a comment is open behind the characters, if these are a gap. -/
def gapEnd? (inComment : Bool) : List Char → Option Bool
  | [] => some inComment
  | c :: cs => (gapStep inComment c).bind fun inComment => gapEnd? inComment cs

theorem gapEnd?_append (inComment : Bool) (gap more : List Char) :
    gapEnd? inComment (gap ++ more) =
      (gapEnd? inComment gap).bind fun inComment => gapEnd? inComment more := by
  induction gap generalizing inComment with
  | nil => rfl
  | cons c cs ih =>
    rw [List.cons_append, gapEnd?, gapEnd?]
    cases gapStep inComment c with
    | none => rfl
    | some b => exact ih b

/-- A gap is passed over, whatever follows it. -/
theorem skipGap_append {inComment still : Bool} {gap : List Char}
    (h : gapEnd? inComment gap = some still) (p : Position) (rest : List Char) :
    skipGap inComment p (gap ++ rest) = skipGap still (p.afterAll gap) rest := by
  induction gap generalizing inComment p with
  | nil =>
    cases h
    rfl
  | cons c cs ih =>
    rw [gapEnd?] at h
    rw [List.cons_append, skipGap]
    cases hstep : gapStep inComment c with
    | none =>
      rw [hstep] at h
      cases h
    | some b =>
      rw [hstep] at h
      exact ih h (p.after c)

/-- Where nothing more of a gap follows, none is passed over. -/
theorem skipGap_of_none {c : Char} {inComment : Bool} (h : gapStep inComment c = none) (p : Position)
    (cs : List Char) : skipGap inComment p (c :: cs) = (p, c :: cs) := by
  rw [skipGap, h]

/-- What is passed over is a gap, and ends where a character is no part of one. -/
theorem skipGap_split (inComment : Bool) (p : Position) (text : List Char) :
    ∃ gap still, gapEnd? inComment gap = some still ∧ text = gap ++ (skipGap inComment p text).2 ∧
      (skipGap inComment p text).1 = p.afterAll gap ∧
      ∀ c cs, (skipGap inComment p text).2 = c :: cs → still = false ∧ gapStep false c = none := by
  induction text generalizing inComment p with
  | nil => exact ⟨[], inComment, rfl, rfl, rfl, fun c cs h => by cases h⟩
  | cons c cs ih =>
    rw [skipGap]
    cases hstep : gapStep inComment c with
    | none =>
      have hopen : inComment = false := by
        cases inComment with
        | false => rfl
        | true => cases hstep
      subst hopen
      refine ⟨[], false, rfl, rfl, rfl, fun d ds h => ?_⟩
      obtain ⟨rfl, rfl⟩ := List.cons.inj h
      exact ⟨rfl, hstep⟩
    | some b =>
      obtain ⟨gap, still, hgap, htext, hpos, hend⟩ := ih b (p.after c)
      refine ⟨c :: gap, still, ?_, ?_, hpos, hend⟩
      · rw [gapEnd?, hstep]
        exact hgap
      · dsimp only
        rw [List.cons_append, ← htext]

/-! ## Gaps and lexemes -/

/-- From `p` on, the text is gaps and lexemes in turn, and the tokens are these lexemes. -/
inductive Scans : Position → List Char → List Token → Prop
  | nil {p : Position} {gap : List Char} {still : Bool} (hgap : gapEnd? false gap = some still) :
      Scans p gap []
  | cons {p : Position} {gap : List Char} {c : Char} {cs : List Char} {m : Munch}
      {tokens : List Token} (hgap : gapEnd? false gap = some false) (hc : gapStep false c = none)
      (hm : munch c cs = .ok m)
      (hrest : Scans ((p.afterAll gap).afterAll m.lexeme) m.rest tokens) :
      Scans p (gap ++ c :: cs) (⟨m.kind, String.ofList m.lexeme, p.afterAll gap⟩ :: tokens)

theorem nextToken_of_gap {gap : List Char} {still : Bool} (h : gapEnd? false gap = some still)
    (p : Position) : nextToken p gap = none := by
  have hskip := skipGap_append h p []
  rw [List.append_nil] at hskip
  unfold nextToken
  rw [hskip]
  rfl

theorem nextToken_of_munch {gap : List Char} (h : gapEnd? false gap = some false) {c : Char}
    (hc : gapStep false c = none) {cs : List Char} {m : Munch} (hm : munch c cs = .ok m)
    (p : Position) :
    nextToken p (gap ++ c :: cs) =
      some (.ok ⟨⟨m.kind, String.ofList m.lexeme, p.afterAll gap⟩,
        (p.afterAll gap).afterAll m.lexeme, m.rest⟩) := by
  unfold nextToken
  rw [skipGap_append h, skipGap_of_none hc]
  dsimp only
  rw [hm]

theorem gap_of_nextToken {p : Position} {text : List Char} (h : nextToken p text = none) :
    ∃ still, gapEnd? false text = some still := by
  obtain ⟨gap, still, hgap, htext, -, -⟩ := skipGap_split false p text
  unfold nextToken at h
  split at h
  · next start hskip =>
    rw [hskip, List.append_nil] at htext
    exact ⟨still, by rw [htext]; exact hgap⟩
  · split at h <;> cases h

theorem munch_of_nextToken {p : Position} {text : List Char} {a : Advance}
    (h : nextToken p text = some (.ok a)) :
    ∃ gap c cs m, gapEnd? false gap = some false ∧ gapStep false c = none ∧ munch c cs = .ok m ∧
      text = gap ++ c :: cs ∧
      a = ⟨⟨m.kind, String.ofList m.lexeme, p.afterAll gap⟩,
        (p.afterAll gap).afterAll m.lexeme, m.rest⟩ := by
  obtain ⟨gap, still, hgap, htext, hpos, hend⟩ := skipGap_split false p text
  unfold nextToken at h
  split at h
  · cases h
  · next start c cs hskip =>
    rw [hskip] at htext hpos hend
    obtain ⟨rfl, hc⟩ := hend c cs rfl
    obtain rfl : start = p.afterAll gap := hpos
    split at h
    · cases h
    · next m hm =>
      cases h
      exact ⟨gap, c, cs, m, hgap, hc, hm, htext, rfl⟩

theorem fault_of_nextToken {p : Position} {text : List Char} {e : ScanError}
    (h : nextToken p text = some (.error e)) :
    ∃ gap c cs, gapEnd? false gap = some false ∧ gapStep false c = none ∧
      munch c cs = .error e.fault ∧ text = gap ++ c :: cs ∧ e.pos = p.afterAll gap := by
  obtain ⟨gap, still, hgap, htext, hpos, hend⟩ := skipGap_split false p text
  unfold nextToken at h
  split at h
  · cases h
  · next start c cs hskip =>
    rw [hskip] at htext hpos hend
    obtain ⟨rfl, hc⟩ := hend c cs rfl
    split at h
    · next fault hfault =>
      cases h
      exact ⟨gap, c, cs, hgap, hc, hfault, htext, hpos⟩
    · cases h

theorem Scans.scanOn_eq {p : Position} {text : List Char} {tokens : List Token}
    (h : Scans p text tokens) (done : List Token) :
    scanOn done p text = ⟨done.reverse ++ tokens, none⟩ := by
  induction h generalizing done with
  | nil hgap =>
    unfold scanOn
    rw [nextToken_of_gap hgap, List.append_nil]
  | cons hgap hc hm _ ih =>
    unfold scanOn
    rw [nextToken_of_munch hgap hc hm]
    dsimp only
    rw [ih, List.reverse_cons, List.append_assoc, List.singleton_append]

/-- A scan that meets no fault reads gaps and lexemes to the end. -/
theorem scans_of_scanOn {done : List Token} {p : Position} {text : List Char}
    (h : (scanOn done p text).error? = none) : ∃ tokens, Scans p text tokens := by
  fun_induction scanOn done p text with
  | case1 done p text hnext =>
    obtain ⟨still, hgap⟩ := gap_of_nextToken hnext
    exact ⟨[], .nil hgap⟩
  | case2 => cases h
  | case3 done p text a hnext ih =>
    obtain ⟨tokens, htokens⟩ := ih h
    obtain ⟨gap, c, cs, m, hgap, hc, hm, rfl, rfl⟩ := munch_of_nextToken hnext
    exact ⟨_, .cons hgap hc hm htokens⟩

/-- Scanning succeeds exactly if the text is gaps and lexemes in turn. -/
theorem tokenize_eq_ok {text : String} {tokens : List Token} :
    tokenize text = .ok tokens ↔ Scans .start text.toList tokens := by
  unfold tokenize scan
  constructor
  · intro h
    dsimp only at h
    cases herror : (scanOn [] .start text.toList).error? with
    | some e =>
      rw [herror] at h
      cases h
    | none =>
      obtain ⟨found, hfound⟩ := scans_of_scanOn herror
      have heq := hfound.scanOn_eq []
      rw [heq] at h
      cases h
      exact hfound
  · intro h
    rw [h.scanOn_eq []]
    rfl

/-! ## One text behind another -/

/-- The same token, some lines further down. -/
def Token.down (t : Token) (lines : Nat) : Token := { t with pos := t.pos.down lines }

/-- A text that scans begins with a gap and the lexeme of its first token. -/
theorem Scans.cons_inv {p : Position} {text : List Char} {token : Token} {tokens : List Token}
    (h : Scans p text (token :: tokens)) :
    ∃ gap c cs m, text = gap ++ c :: cs ∧ gapEnd? false gap = some false ∧
      gapStep false c = none ∧ munch c cs = .ok m ∧
      token = ⟨m.kind, String.ofList m.lexeme, p.afterAll gap⟩ ∧
      Scans ((p.afterAll gap).afterAll m.lexeme) m.rest tokens := by
  cases h with
  | cons hgap hc hm hrest => exact ⟨_, _, _, _, rfl, hgap, hc, hm, rfl, hrest⟩

/-- A text that begins some lines further down scans alike, further down. -/
theorem Scans.down {p : Position} {text : List Char} {tokens : List Token}
    (h : Scans p text tokens) (lines : Nat) :
    Scans (p.down lines) text (tokens.map (·.down lines)) := by
  induction h with
  | nil hgap => exact .nil hgap
  | @cons p gap c cs m tokens hgap hc hm _ ih =>
    rw [← Position.afterAll_down, ← Position.afterAll_down] at ih
    rw [List.map_cons]
    unfold Token.down
    dsimp only
    rw [← Position.afterAll_down]
    exact .cons hgap hc hm ih

/-- A gap before a text only moves it. -/
theorem Scans.behind_gap {p : Position} {gap text : List Char} {tokens : List Token}
    (hgap : gapEnd? false gap = some false) (h : Scans (p.afterAll gap) text tokens) :
    Scans p (gap ++ text) tokens := by
  have hlonger {more : List Char} {still : Bool} (hmore : gapEnd? false more = some still) :
      gapEnd? false (gap ++ more) = some still := by
    rw [gapEnd?_append, hgap]
    exact hmore
  generalize hq : p.afterAll gap = q at h
  cases h with
  | nil hmore => exact .nil (hlonger hmore)
  | @cons _ more c cs m tokens hmore hc hm hrest =>
    subst hq
    rw [← List.append_assoc, ← Position.afterAll_append]
    rw [← Position.afterAll_append p gap more] at hrest
    exact .cons (hlonger hmore) hc hm hrest

/-- Every token stands on a line of its text. -/
theorem Scans.line_bounds {p : Position} {text : List Char} {tokens : List Token}
    (h : Scans p text tokens) :
    ∀ t ∈ tokens, p.line ≤ t.pos.line ∧ t.pos.line ≤ (p.afterAll text).line := by
  induction h with
  | nil _ => exact fun t ht => absurd ht List.not_mem_nil
  | @cons p gap c cs m tokens _ _ hm _ ih =>
    obtain ⟨tail, hlexeme, hcs, -⟩ := munch_split hm
    have htext : gap ++ c :: cs = gap ++ (m.lexeme ++ m.rest) := by
      rw [hlexeme, hcs, List.cons_append]
    rw [htext]
    simp only [Position.line_afterAll, List.count_append] at ih ⊢
    rw [List.forall_mem_cons]
    constructor
    · dsimp only
      rw [Position.line_afterAll]
      omega
    · intro t ht
      have := ih t ht
      omega

end TwinScript
