import TwinScript.Proofs.Syntax.Likeness
import TwinScript.Proofs.Syntax.Reading

/-!
# Reading alike tokens alike

The grammar looks at kinds and at whether neighbours share a line, so lists of tokens that agree in
these are read alike; and where the second list goes on with more tokens, which open a statement of
their own, it is read alike as far as the first one goes. `Parser.Tracks` says both at once of two
parsers: the second reads tokens alike with `behind` after them as the first reads them alone, and
leaves `behind` unread. It also counts the tokens taken, since each repetition of the grammar is
bounded by a number of rounds that differs from one list to the other: as no round goes without a
token, the bounds never show.

Where the first parser fails, nothing is said unless `behind` is empty: more tokens may help.

* `Parser.Tracks.bind`, `Parser.Tracks.bind_shorter`: it composes along `do`.
* `Parser.Tracks.acceptBind`, `Parser.Tracks.acceptIfBind`: decisions by the next token.
-/

namespace TwinScript

/-! ## Tokens alike -/

section

variable (tok : Token → Token → Prop)

/-- The tokens are related, and both or neither are on the line of the token before. -/
structure Mark.Like (m m' : Mark) : Prop where
  token : tok m.token m'.token
  joined_eq : m.joined = m'.joined

/-- The same fault, at related tokens or at the end of both texts. -/
structure ParseError.Like (e e' : ParseError) : Prop where
  fault_eq : e.fault = e'.fault
  token? : Option.Rel tok e.token? e'.token?

/-- A wider relation holds of more tokens. -/
theorem ParseError.Like.mono {tok : Token → Token → Prop} {tok' : Token → Token → Prop}
    {e e' : ParseError} (he : e.Like tok e') (h : ∀ t t', tok t t' → tok' t t') :
    e.Like tok' e' := by
  have htoken := he.token?.map (f := id) (g := id) h
  rw [Option.map_id] at htoken
  exact ⟨he.fault_eq, htoken⟩

/-- Related tokens have the same kind, and stand at positions related by `place`. -/
def TokensAt (place : Position → Position → Prop) : Prop :=
  ∀ t t', tok t t' → t.kind = t'.kind ∧ place t.pos t'.pos

end

/-- A value that a token writes has no positions. -/
theorem Literal.like_ofKind? {place : Position → Position → Prop} {kind : Token.Kind}
    {value : Literal} (h : Literal.ofKind? kind = some value) : value.Like place value := by
  unfold Literal.ofKind? at h
  split at h <;> cases h <;> constructor

/-- The symbols that may open a statement, or stand between two. -/
def openers : List Symbol := [.leftParen, .leftBrace, .minus, .bang, .semicolon]

/-- The tokens, if there are any, open a statement on a line of their own. -/
def OpensStatement (behind : List Mark) : Prop :=
  ∀ m, behind.head? = some m → m.joined = false ∧ ∀ s, m.token.kind = .symbol s → s ∈ openers

/-- Where nothing comes behind, nothing goes on with an expression. -/
theorem opensStatement_nil : OpensStatement [] := by
  intro m h
  cases h

/-! ## Parsers that keep to one another -/

section

variable (tok : Token → Token → Prop) (behind : List Mark) {α β : Type}

/-- The first reading, of `length` tokens, took at least `k` of them, and the second took their
counterparts and made the same of them; or the first failed, and then so did the second if nothing
was behind. -/
inductive ReadAlike (length k : Nat) (R : α → β → Prop) :
    Except ParseError (α × List Mark) → Except ParseError (β × List Mark) → Prop
  | ok {a : α} {b : β} {v v' : List Mark} (hab : R a b) (hrest : List.Forall₂ (Mark.Like tok) v v')
      (htaken : v.length + k ≤ length) :
      ReadAlike length k R (.ok (a, v)) (.ok (b, v' ++ behind))
  | error {e : ParseError} {r : Except ParseError (β × List Mark)}
      (h : behind = [] → ∃ e', r = .error e' ∧ e.Like tok e') : ReadAlike length k R (.error e) r

/-- On up to `n` tokens, the second parser does the same with `behind` after them as the first does
without, and takes at least `k` tokens. -/
def Parser.Tracks (n k : Nat) (R : α → β → Prop) (p : Parser α) (p' : Parser β) : Prop :=
  ∀ u u', List.Forall₂ (Mark.Like tok) u u' → u.length ≤ n →
    ReadAlike tok behind u.length k R (p u) (p' (u' ++ behind))

end

variable {tok : Token → Token → Prop} {behind : List Mark}

/-- Fewer tokens may be asked for, or more may have been there. -/
theorem ReadAlike.mono {α β : Type} {R : α → β → Prop} {length length' k k' : Nat}
    {x : Except ParseError (α × List Mark)} {y : Except ParseError (β × List Mark)}
    (h : ReadAlike tok behind length k R x y) (hle : length + k' ≤ length' + k) :
    ReadAlike tok behind length' k' R x y := by
  cases h with
  | ok hab hrest htaken => exact .ok hab hrest (by omega)
  | error h => exact .error h

namespace Parser

variable {α β γ δ : Type} {R : α → β → Prop} {S : γ → δ → Prop} {n k l : Nat}

/-- On fewer tokens, and with fewer to be taken, two parsers track each other all the more. -/
theorem Tracks.mono {p : Parser α} {p' : Parser β} (h : p.Tracks tok behind n k R p') {m j : Nat}
    (hm : m ≤ n) (hj : j ≤ k) : p.Tracks tok behind m j R p' := by
  intro u u' hu hlength
  exact (h u u' hu (Nat.le_trans hlength hm)).mono (by omega)

/-- Results that are related take no token. -/
theorem Tracks.pure {a : α} {b : β} (h : R a b) :
    (Pure.pure a : Parser α).Tracks tok behind n 0 R (Pure.pure b : Parser β) := by
  intro u u' hu _
  exact .ok h hu (Nat.le_refl _)

/-- Errors that are alike end both. -/
theorem Tracks.throw {e e' : ParseError} (h : e.Like tok e') :
    (MonadExcept.throw e : Parser α).Tracks tok behind n k R (MonadExcept.throw e' : Parser β) := by
  intro u u' _ _
  exact .error fun _ => ⟨e', rfl, h⟩

/-- With no token to read, it is enough that both read none. -/
theorem Tracks.of_nil {p : Parser α} {p' : Parser β} {a : α} {b : β} (hn : n = 0)
    (hp : p [] = .ok (a, [])) (hp' : p' behind = .ok (b, behind)) (hab : R a b) :
    p.Tracks tok behind n 0 R p' := by
  intro u u' hu hlength
  obtain rfl : u = [] := List.length_eq_zero_iff.mp (by omega)
  cases hu
  rw [List.nil_append, hp, hp']
  exact @ReadAlike.ok tok behind α β 0 0 R a b [] [] hab .nil (Nat.le_refl _)

/-- Two parsers that fail alike where there is no token track each other if they do from any first
token on. -/
theorem Tracks.of_first {p : Parser α} {p' : Parser β} {e e' : ParseError} (hp : p [] = .error e)
    (hp' : p' [] = .error e') (he : e.Like tok e')
    (hcons : ∀ m m' rest rest', m.Like tok m' → List.Forall₂ (Mark.Like tok) rest rest' →
      (m :: rest).length ≤ n → ReadAlike tok behind (m :: rest).length k R (p (m :: rest))
        (p' (m' :: rest' ++ behind))) :
    p.Tracks tok behind n k R p' := by
  intro u u' hu hlength
  cases hu with
  | nil =>
    rw [hp]
    refine .error fun hbehind => ⟨e', ?_, he⟩
    rw [hbehind]
    exact hp'
  | cons hm hrest => exact hcons _ _ _ _ hm hrest hlength

/-- After a first part that was read alike, with at least `k` tokens taken, the second has no more
than `n - k` left. -/
theorem bind_alike {p : Parser α} {p' : Parser β} {q : α → Parser γ} {q' : β → Parser δ}
    {u w : List Mark} (h : ReadAlike tok behind u.length k R (p u) (p' w)) (hlength : u.length ≤ n)
    (hq : ∀ a b, R a b → (q a).Tracks tok behind (n - k) l S (q' b)) :
    ReadAlike tok behind u.length (k + l) S ((p >>= q) u) ((p' >>= q') w) := by
  rw [bind_apply, bind_apply]
  generalize p u = x at h ⊢
  generalize p' w = y at h ⊢
  cases h with
  | ok hab hrest htaken =>
    exact (hq _ _ hab _ _ hrest (by omega)).mono (by omega)
  | error h =>
    refine .error fun hbehind => ?_
    obtain ⟨e', rfl, he⟩ := h hbehind
    exact ⟨e', rfl, he⟩

/-- The second part goes on with fewer tokens, as the first has taken some. -/
theorem Tracks.bind_shorter {p : Parser α} {p' : Parser β} {q : α → Parser γ} {q' : β → Parser δ}
    (hp : p.Tracks tok behind n k R p')
    (hq : ∀ a b, R a b → (q a).Tracks tok behind (n - k) l S (q' b)) :
    (p >>= q).Tracks tok behind n (k + l) S (p' >>= q') :=
  fun u u' hu hlength => bind_alike (hp u u' hu hlength) hlength hq

/-- Two parts in a row take the tokens of both. -/
theorem Tracks.bind {p : Parser α} {p' : Parser β} {q : α → Parser γ} {q' : β → Parser δ}
    (hp : p.Tracks tok behind n k R p')
    (hq : ∀ a b, R a b → (q a).Tracks tok behind n l S (q' b)) :
    (p >>= q).Tracks tok behind n (k + l) S (p' >>= q') :=
  hp.bind_shorter fun a b hab => (hq a b hab).mono (Nat.sub_le _ _) (Nat.le_refl _)

/-- A parser that has to take a token fails where there is none, and then only a list without
`behind` is told anything of. -/
theorem Tracks.fails_nil {p : Parser α} {p' : Parser β} (hp : p.Tracks tok behind n 1 R p')
    {r : Except ParseError (γ × List Mark)} {T : α → γ → Prop}
    (hr : behind = [] → ∀ e, p' [] = .error e → r = .error e) :
    ReadAlike tok behind 0 k T (p []) r := by
  have h := hp [] [] .nil (Nat.zero_le n)
  generalize p [] = x at h ⊢
  generalize hy : p' ([] ++ behind) = y at h
  cases h with
  | ok _ _ htaken => simp at htaken
  | error h =>
    refine .error fun hbehind => ?_
    obtain ⟨e', rfl, he⟩ := h hbehind
    rw [hbehind] at hy
    exact ⟨e', hr hbehind e' hy, he⟩

/-- What is made of related results may be related in another way. -/
theorem Tracks.map {p : Parser α} {p' : Parser β} {f : α → γ} {f' : β → δ}
    (hp : p.Tracks tok behind n k R p') (hf : ∀ a b, R a b → S (f a) (f' b)) :
    (f <$> p).Tracks tok behind n k S (f' <$> p') := by
  rw [map_eq_bind, map_eq_bind]
  exact hp.bind fun a b hab => Tracks.pure (hf a b hab)

/-! ## Single tokens -/

section

variable {place : Position → Position → Prop} (htok : TokensAt tok place)

/-- The next tokens are paired, or there is none. -/
theorem upcoming_alike {u u' : List Mark} (hu : List.Forall₂ (Mark.Like tok) u u') :
    Option.Rel tok (upcoming? u) (upcoming? u') := by
  cases hu with
  | nil => exact .none
  | cons hm _ => exact .some hm.token

/-- A complaint is about tokens that are paired, unless more comes behind. -/
theorem failNext_tracks (fault : ParseFault) :
    (failNext fault : Parser α).Tracks tok behind n k R (failNext fault : Parser β) := by
  intro u u' hu _
  refine .error fun hbehind => ⟨_, rfl, rfl, ?_⟩
  rw [hbehind, List.append_nil]
  exact upcoming_alike hu

include htok

/-- With a token left, the next one is the same on both sides. -/
theorem nextIs_cons (s : Symbol) {m m' : Mark} (hm : m.Like tok m') (u u' : List Mark) :
    nextIs s (m :: u) = nextIs s (m' :: u') := by
  have hkind := (htok _ _ hm.token).1
  unfold nextIs upcoming?
  simp only [List.head?_cons, Option.map_some, Option.any_some, hkind]

/-- A symbol that opens no statement is next on both sides or on neither. -/
theorem nextIs_alike (hopens : OpensStatement behind) {s : Symbol} (hs : s ∉ openers)
    {u u' : List Mark} (hu : List.Forall₂ (Mark.Like tok) u u') :
    nextIs s u = nextIs s (u' ++ behind) := by
  cases hu with
  | cons hm _ => exact nextIs_cons htok s hm _ _
  | nil =>
    cases behind with
    | nil => rfl
    | cons m rest =>
      have hkind : m.token.kind ≠ .symbol s := fun h => hs ((hopens m rfl).2 s h)
      simp [nextIs, upcoming?, hkind]

/-- A symbol that must come is taken on both sides or on neither. -/
theorem expect_tracks (s : Symbol) (what : String) :
    (expect s what).Tracks tok behind n 1 Eq (expect s what) := by
  refine .of_first rfl rfl ⟨rfl, .none⟩ fun m m' rest rest' hm hrest hlength => ?_
  have hnext : nextIs s (m :: rest) = nextIs s (m' :: rest' ++ behind) :=
    nextIs_cons htok s hm _ _
  unfold expect
  rw [← hnext]
  by_cases hfound : nextIs s (m :: rest) = true
  · rw [if_pos hfound, if_pos hfound]
    exact .ok rfl hrest (Nat.le_refl _)
  · rw [if_neg hfound, if_neg hfound]
    exact failNext_tracks _ _ _ (.cons hm hrest) hlength

/-- So is a name. -/
theorem identifier_tracks : identifier.Tracks tok behind n 1 Eq identifier := by
  refine .of_first rfl rfl ⟨rfl, .none⟩ fun m m' rest rest' hm hrest hlength => ?_
  obtain ⟨⟨kind, lexeme, pos⟩, joined⟩ := m
  obtain ⟨⟨kind', lexeme', pos'⟩, joined'⟩ := m'
  obtain rfl : kind = kind' := (htok _ _ hm.token).1
  cases kind with
  | identifier name => exact .ok rfl hrest (Nat.le_refl _)
  | _ => exact failNext_tracks _ _ _ (.cons hm hrest) hlength

/-! ## Decisions -/

/-- What follows if a symbol comes next, and what if it does not. -/
theorem Tracks.acceptBind (hopens : OpensStatement behind) {s : Symbol} (hs : s ∉ openers)
    {p q : Parser α} {p' q' : Parser β} (hyes : p.Tracks tok behind (n - 1) l R p')
    (hno : q.Tracks tok behind n k R q') (hk : k ≤ l + 1) :
    (accept s >>= fun found => if found = true then p else q).Tracks tok behind n k R
      (accept s >>= fun found => if found = true then p' else q') := by
  intro u u' hu hlength
  have hnext := nextIs_alike htok hopens hs hu
  rw [bind_apply, bind_apply]
  unfold accept
  rw [← hnext]
  by_cases hfound : nextIs s u = true
  · rw [if_pos hfound, if_pos hfound]
    cases hu with
    | nil => cases hfound
    | @cons m m' rest rest' hm hrest =>
      have hshort : rest.length ≤ n - 1 := by
        rw [List.length_cons] at hlength
        omega
      apply (hyes rest rest' hrest hshort).mono
      rw [List.length_cons]
      omega
  · rw [if_neg hfound, if_neg hfound]
    exact hno u u' hu hlength

omit htok in
/-- What follows if a token of some sort comes next, and what if none does. -/
theorem Tracks.acceptIfBind {wanted : Mark → Bool}
    (hwanted : ∀ m m', m.Like tok m' → wanted m = wanted m')
    (hstop : ∀ m, behind.head? = some m → wanted m = false)
    {next : Option Token → Parser α} {next' : Option Token → Parser β}
    (hnone : (next none).Tracks tok behind n k R (next' none))
    (hsome : ∀ t t', tok t t' → (next (some t)).Tracks tok behind (n - 1) l R (next' (some t')))
    (hk : k ≤ l + 1) :
    (acceptIf wanted >>= next).Tracks tok behind n k R (acceptIf wanted >>= next') := by
  intro u u' hu hlength
  rw [bind_apply, bind_apply]
  cases hu with
  | nil =>
    have hright : acceptIf wanted ([] ++ behind) = .ok (none, behind) := by
      cases behind with
      | nil => rfl
      | cons m rest =>
        have hm := hstop m rfl
        simp [acceptIf, hm]
    rw [hright]
    exact hnone [] [] .nil hlength
  | @cons m m' rest rest' hm hrest =>
    have hsame := hwanted m m' hm
    have hshort : rest.length ≤ n - 1 := by
      rw [List.length_cons] at hlength
      omega
    by_cases hfound : wanted m = true
    · have hfound' : wanted m' = true := by rw [← hsame, hfound]
      simp only [acceptIf, List.cons_append, hfound, hfound', if_true]
      apply (hsome _ _ hm.token rest rest' hrest hshort).mono
      rw [List.length_cons]
      omega
    · have hfound' : ¬ wanted m' = true := by rw [← hsame]; exact hfound
      simp only [acceptIf, List.cons_append, hfound, hfound']
      exact hnone _ _ (.cons hm hrest) hlength

end

end Parser

end TwinScript
