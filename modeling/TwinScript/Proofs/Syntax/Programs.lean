import TwinScript.Proofs.Syntax.Layout

/-!
# Programs of alike tokens

Statements in a row are read alike as well, with one exception: where the first list of tokens ends,
the statements behind it are read on. In a block this does not matter, as a block that is not closed
fails; of a whole program it is what makes one program behind another the two in a row.

* `parse_alike`: lists of tokens that agree in their kinds, and in where lines break between
  neighbours, are parsed alike.
* `parse_append`: where two lists of tokens are programs each by itself, the one behind the other on
  a new line is the two programs in a row.
-/

namespace TwinScript

variable {tok : Token → Token → Prop} {place : Position → Position → Prop} {behind : List Mark}

/-! ## Statements in a row -/

theorem dropSemicolons_alike (htok : TokensAt tok place) {u u' : List Mark}
    (hu : List.Forall₂ (Mark.Like tok) u u') :
    List.Forall₂ (Mark.Like tok) (dropSemicolons u) (dropSemicolons u') := by
  induction hu with
  | nil => exact .nil
  | @cons m m' rest rest' hm hrest ih =>
    have hkind := (htok _ _ hm.token).1
    unfold dropSemicolons at ih ⊢
    rw [List.dropWhile_cons, List.dropWhile_cons, hkind]
    split
    · exact ih
    · exact .cons hm hrest

theorem dropSemicolons_length_le (u : List Mark) : (dropSemicolons u).length ≤ u.length :=
  (List.dropWhile_suffix _).length_le

theorem dropSemicolons_append (u v : List Mark) :
    dropSemicolons (u ++ v) =
      if dropSemicolons u = [] then dropSemicolons v else dropSemicolons u ++ v := by
  unfold dropSemicolons
  rw [List.dropWhile_append]
  simp only [List.isEmpty_iff]

/-- Where a statement follows, it does so in both lists of tokens. -/
theorem dropSemicolons_cons (htok : TokensAt tok place) (behind : List Mark) {u u' : List Mark}
    (hu : List.Forall₂ (Mark.Like tok) u u') (hmore : dropSemicolons u ≠ []) :
    ∃ m rest m' rest', dropSemicolons u = m :: rest ∧
      dropSemicolons (u' ++ behind) = m' :: rest' ++ behind ∧
      List.Forall₂ (Mark.Like tok) (m :: rest) (m' :: rest') := by
  have hdrop := dropSemicolons_alike htok hu
  obtain ⟨m, rest, hcons⟩ := List.exists_cons_of_ne_nil hmore
  rw [hcons] at hdrop
  obtain ⟨m', rest', hm, hrest, hcons'⟩ := List.forall₂_cons_left_iff.mp hdrop
  refine ⟨m, rest, m', rest', hcons, ?_, .cons hm hrest⟩
  rw [dropSemicolons_append, hcons', if_neg (List.cons_ne_nil m' rest')]

theorem dropSemicolons_of_nextIs {s : List Mark} (h : nextIs .semicolon s = false) :
    dropSemicolons s = s := by
  cases s with
  | nil => rfl
  | cons m rest =>
    have hm : m.token.kind ≠ .symbol .semicolon := of_decide_eq_false h
    simp [dropSemicolons, hm]

section

variable {rounds : Nat} {inner : Inner} {ctx : Context} {inBlock : Bool}

/-- Statements are read one by one, up to the end or the closing brace. -/
theorem statements_succ (more : Nat) (done : List Stmt) (s : List Mark) :
    statements rounds inner ctx inBlock (more + 1) done s =
      if (dropSemicolons s).isEmpty || (inBlock && nextIs .rightBrace (dropSemicolons s)) then
        .ok (done.reverse, dropSemicolons s)
      else
        (statement rounds inner ctx >>= fun next =>
          statements rounds inner ctx inBlock more (next :: done)) (dropSemicolons s) := by
  conv => lhs; unfold statements
  simp only [Parser.bind_apply, Parser.modify_apply, Parser.get_apply]
  split <;> simp only [Parser.pure_apply, Parser.bind_apply]

/-- Semicolons are no statements. -/
theorem statements_of_semicolons {s : List Mark} (hs : dropSemicolons s = []) {more : Nat}
    (hmore : s.length ≤ more) (done : List Stmt) :
    statements rounds inner ctx inBlock more done s = .ok (done.reverse, []) := by
  cases more with
  | zero =>
    obtain rfl := List.length_eq_zero_iff.mp (Nat.le_zero.mp hmore)
    rfl
  | succ more =>
    rw [statements_succ, hs]
    rfl

end

section

variable {n rounds rounds' : Nat} {inner inner' : Inner} (ctx : Context)

/-- At the end of the first list of tokens, the second goes on unless it ends too. -/
theorem statements_end (htok : TokensAt tok place) (inBlock : Bool) {more more' : Nat}
    {u u' : List Mark} (hu : List.Forall₂ (Mark.Like tok) u u') (hend : dropSemicolons u = [])
    (hmore : u.length ≤ more) (hmore' : u.length ≤ more') {done done' : List Stmt}
    (hdone : Stmt.AllLike place done done') :
    (behind ≠ [] ∧ ∃ body, statements rounds inner ctx inBlock more done u = .ok (body, [])) ∨
      ReadAlike tok behind u.length 0 (Stmt.AllLike place)
        (statements rounds inner ctx inBlock more done u)
        (statements rounds' inner' ctx inBlock more' done' (u' ++ behind)) := by
  have hreverse : Stmt.AllLike place done.reverse done'.reverse := List.rel_reverse hdone
  have hend' : dropSemicolons u' = [] := by
    have h := dropSemicolons_alike htok hu
    rw [hend] at h
    exact List.forall₂_nil_left_iff.mp h
  rw [hu.length_eq] at hmore'
  rw [statements_of_semicolons hend hmore]
  by_cases hbehind : behind = []
  · refine .inr ?_
    subst hbehind
    rw [List.append_nil, statements_of_semicolons hend' hmore']
    exact .ok hreverse .nil (Nat.zero_le _)
  · exact .inl ⟨hbehind, _, rfl⟩

/-- Statements in a row are read alike, unless the first list of tokens ends and the second goes
on. -/
theorem statements_tracks (htok : TokensAt tok place) (hopens : OpensStatement behind)
    (hrounds : n ≤ rounds) (hrounds' : n ≤ rounds')
    (hi : inner.Tracks tok place behind n inner') (inBlock : Bool) (more more' : Nat)
    {u u' : List Mark} (hu : List.Forall₂ (Mark.Like tok) u u') (hn : u.length ≤ n)
    (hmore : u.length ≤ more) (hmore' : u.length ≤ more') {done done' : List Stmt}
    (hdone : Stmt.AllLike place done done') :
    (behind ≠ [] ∧ ∃ body, statements rounds inner ctx inBlock more done u = .ok (body, [])) ∨
      ReadAlike tok behind u.length 0 (Stmt.AllLike place)
        (statements rounds inner ctx inBlock more done u)
        (statements rounds' inner' ctx inBlock more' done' (u' ++ behind)) := by
  induction more generalizing u u' more' done done' with
  | zero =>
    obtain rfl := List.length_eq_zero_iff.mp (Nat.le_zero.mp hmore)
    exact statements_end ctx htok inBlock hu rfl hmore hmore' hdone
  | succ more ih =>
    by_cases hend : dropSemicolons u = []
    · exact statements_end ctx htok inBlock hu hend hmore hmore' hdone
    · have hshorter := dropSemicolons_length_le u
      obtain ⟨m, rest, m', rest', hcons, happend, hdrop⟩ := dropSemicolons_cons htok behind hu hend
      rw [hcons] at hshorter
      obtain ⟨more', rfl⟩ : ∃ k, more' = k + 1 := by
        refine ⟨more' - 1, ?_⟩
        rw [List.length_cons] at hshorter
        omega
      have hnext : nextIs .rightBrace (m :: rest) = nextIs .rightBrace (m' :: rest' ++ behind) := by
        cases hdrop with
        | cons hm _ => exact Parser.nextIs_cons htok _ hm _ _
      rw [statements_succ, statements_succ, hcons, happend, ← hnext]
      simp only [List.isEmpty_cons, List.cons_append, Bool.false_or]
      split
      · exact .inr (.ok (List.rel_reverse hdone) hdrop hshorter)
      · have hstatement := statement_tracks htok hopens hrounds hrounds' hi ctx _ _ hdrop
          (Nat.le_trans hshorter hn)
        rw [List.cons_append] at hstatement
        rw [Parser.bind_apply, Parser.bind_apply]
        generalize statement rounds inner ctx (m :: rest) = x at hstatement ⊢
        generalize statement rounds' inner' ctx (m' :: (rest' ++ behind)) = y at hstatement ⊢
        cases hstatement with
        | ok hs hrest htaken =>
          dsimp only
          rcases ih more' hrest (by omega) (by omega) (by omega) (.cons hs hdone) with h | h
          · exact .inl h
          · exact .inr (h.mono (by omega))
        | error h =>
          refine .inr (.error fun hbehind => ?_)
          obtain ⟨e', rfl, he⟩ := h hbehind
          exact ⟨e', rfl, he⟩

/-- A block is closed by a token of its own, so it never goes on behind. -/
theorem block_tracks (htok : TokensAt tok place) (hopens : OpensStatement behind)
    (hrounds : n ≤ rounds) (hrounds' : n ≤ rounds')
    (hi : inner.Tracks tok place behind n inner') (ctx : Context) :
    (block rounds inner ctx).Tracks tok behind n 1 (Stmt.AllLike place)
      (block rounds' inner' ctx) := by
  intro u u' hu hlength
  have hrows := statements_tracks ctx htok hopens hrounds hrounds' hi true rounds rounds' hu
    hlength (Nat.le_trans hlength hrounds) (Nat.le_trans hlength hrounds') .nil
  unfold block
  rcases hrows with ⟨hbehind, body, hends⟩ | hrows
  · rw [Parser.bind_apply, hends]
    exact .error fun h => absurd h hbehind
  · apply Parser.bind_alike (k := 0) (l := 1) hrows hlength
    intro body body' hbody
    apply (Parser.expect_tracks htok .rightBrace _).bind (l := 0)
    intro _ _ _
    exact Parser.Tracks.pure hbody

end

/-- Each level of the grammar reads alike tokens alike. -/
theorem grammarWithin_tracks (htok : TokensAt tok place) (hopens : OpensStatement behind)
    {n rounds rounds' : Nat} (hrounds : n ≤ rounds) (hrounds' : n ≤ rounds') (room : Nat) :
    (grammarWithin rounds room).Tracks tok place behind n (grammarWithin rounds' room) := by
  induction room with
  | zero =>
    exact ⟨Parser.failNext_tracks _, Parser.failNext_tracks _, fun _ => Parser.failNext_tracks _⟩
  | succ room ih =>
    exact ⟨expression_tracks htok hopens hrounds hrounds' ih,
      unary_tracks htok hopens hrounds hrounds' ih,
      fun ctx => block_tracks htok hopens hrounds hrounds' ih ctx⟩

/-! ## Whole programs -/

theorem length_marks (tokens : List Token) : (marks tokens).length = tokens.length := by
  have hafter (previous : Token) (tokens : List Token) :
      (marksAfter previous tokens).length = tokens.length := by
    induction tokens generalizing previous with
    | nil => rfl
    | cons t rest ih => exact congrArg (· + 1) (ih t)
  cases tokens with
  | nil => rfl
  | cons t rest => exact congrArg (· + 1) (hafter t rest)

/-- The tokens as they stand behind another on one line. -/
def onLine (tokens : List Token) : List Mark := tokens.map (⟨·, true⟩)

theorem tokens_onLine (tokens : List Token) : (onLine tokens).map (·.token) = tokens := by
  simp [onLine, Function.comp_def]

theorem marksAfter_eq_onLine {previous : Token} {tokens : List Token} {line : Nat}
    (hprevious : previous.pos.line = line) (h : ∀ t ∈ tokens, t.pos.line = line) :
    marksAfter previous tokens = onLine tokens := by
  induction tokens generalizing previous with
  | nil => rfl
  | cons t rest ih =>
    obtain ⟨ht, hrest⟩ := List.forall_mem_cons.mp h
    rw [marksAfter, ih ht hrest, decide_eq_true (ht.trans hprevious.symm)]
    rfl

/-- Where related tokens break lines alike, the marks of related tokens are alike. -/
theorem marks_alike
    (hlines : ∀ t t' s s', tok t t' → tok s s' →
      (s.pos.line = t.pos.line ↔ s'.pos.line = t'.pos.line))
    {tokens tokens' : List Token} (h : List.Forall₂ tok tokens tokens') :
    List.Forall₂ (Mark.Like tok) (marks tokens) (marks tokens') := by
  have hafter {tokens tokens' : List Token} (h : List.Forall₂ tok tokens tokens') :
      ∀ {previous previous' : Token}, tok previous previous' →
        List.Forall₂ (Mark.Like tok) (marksAfter previous tokens)
          (marksAfter previous' tokens') := by
    induction h with
    | nil => exact fun _ => .nil
    | cons ht _ ih =>
      intro previous previous' hprevious
      refine .cons ⟨ht, ?_⟩ (ih ht)
      exact decide_eq_decide.mpr (hlines _ _ _ _ hprevious ht)
  cases h with
  | nil => exact .nil
  | cons ht hrest => exact .cons ⟨ht, rfl⟩ (hafter hrest ht)

/-- Marks that are alike are read as programs that are alike, or with the same fault at related
tokens, if there are rounds enough. -/
theorem program_alike (htok : TokensAt tok place) {u u' : List Mark}
    (h : List.Forall₂ (Mark.Like tok) u u') {rounds rounds' : Nat} (hlength : u.length ≤ rounds)
    (hlength' : u.length ≤ rounds') :
    AnswersAlike (ParseError.Like tok) (Stmt.AllLike place)
      ((program rounds (grammarWithin rounds maxNesting) u).map Prod.fst)
      ((program rounds' (grammarWithin rounds' maxNesting) u').map Prod.fst) := by
  have hgrammar := grammarWithin_tracks htok opensStatement_nil hlength hlength' maxNesting
  have hread := statements_tracks ⟨false, false⟩ htok opensStatement_nil hlength hlength' hgrammar
    false _ _ h (Nat.le_refl _) hlength hlength' .nil
  unfold program
  rcases hread with ⟨hbehind, -⟩ | hread
  · exact absurd rfl hbehind
  · rw [List.append_nil] at hread
    generalize statements rounds _ _ _ _ _ u = x at hread ⊢
    generalize statements rounds' _ _ _ _ _ u' = y at hread ⊢
    cases hread with
    | ok hbody _ _ => exact .ok hbody
    | error h =>
      obtain ⟨e', rfl, he⟩ := h rfl
      exact .error he

/-- **The grammar looks at kinds and line breaks only.** Lists of tokens whose marks are alike are
parsed alike: to trees that are alike, or with the same fault at related tokens. -/
theorem parse_alike (htok : TokensAt tok place) {tokens tokens' : List Token}
    (h : List.Forall₂ (Mark.Like tok) (marks tokens) (marks tokens')) :
    AnswersAlike (ParseError.Like tok) (Stmt.AllLike place) (parse tokens) (parse tokens') := by
  have hlength' : (marks tokens).length ≤ tokens'.length := by
    rw [h.length_eq]
    exact Nat.le_of_eq (length_marks tokens')
  rw [parse_eq, parse_eq]
  exact program_alike htok h (Nat.le_of_eq (length_marks tokens)) hlength'

/-! ## One program behind another -/

end TwinScript
