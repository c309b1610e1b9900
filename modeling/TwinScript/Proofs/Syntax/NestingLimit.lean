import TwinScript.Proofs.Syntax.Openings

/-!
# The limit on nesting only cuts off

Since every production opens smaller ones only, the same productions make a grammar without a limit
as well (`Inner.unbounded`), and only one (`Inner.outer_eq_self_iff`). Which productions are open
inside each other while it reads is said by what a failure would do: a production opens another one
if it fails whenever that one does, and in the same way (`Opens`).

* `Inner.unbounded_isFree`: without the limit, nothing is nested too deep.
* `cutOff_of_asks`: with a limit, reading fails where the first opening is one too deep, and else
  reads what is read without it.
* `nesting_limit_only_cuts`: so does parsing.
-/

namespace TwinScript

/-! ## Grammars by their openings -/

namespace Inner

/-- The productions, by what is read where they are opened. -/
def ofRead (read : (x : Opening) → Except ParseError (x.Tree × List Mark)) : Inner where
  expression s := read ⟨.expression, s⟩
  operand s := read ⟨.operand, s⟩
  block ctx s := read ⟨.block ctx, s⟩

@[simp] theorem read_ofRead (read : (x : Opening) → Except ParseError (x.Tree × List Mark))
    (x : Opening) : (ofRead read).read x = read x := by
  match x with
  | ⟨.expression, _⟩ => rfl
  | ⟨.operand, _⟩ => rfl
  | ⟨.block _, _⟩ => rfl

theorem ofRead_read (inner : Inner) : ofRead inner.read = inner := rfl

theorem ext_read {inner inner' : Inner} (h : ∀ x, inner.read x = inner'.read x) :
    inner = inner' := by
  rw [← inner.ofRead_read, ← inner'.ofRead_read, funext h]

end Inner

/-- What is asked for depends on the answers to smaller openings only. -/
theorem Asks.congr {α : Type} {bound : Nat} {s : List Mark}
    {f : Inner → Except ParseError (α × List Mark)} (h : Asks bound s f) {inner inner' : Inner}
    (hi : ∀ x, StopsIn x.marks (inner.read x))
    (heq : ∀ x : Opening, x.size < bound → inner'.read x = inner.read x) : f inner' = f inner := by
  induction h with
  | answer => rfl
  | @ask s x next hx hsize _ ih =>
    have hread := hi x
    dsimp only
    rw [heq x hsize]
    match inner.read x, hread with
    | .ok (a, t), ht => exact ih a t ht
    | .error e, _ => rfl

/-! ## The grammar without a limit -/

/-- With more room than an opening is large, the room does not matter. -/
theorem grammarWithin_of_size_lt {rounds room room' : Nat} {x : Opening} (h : x.size < room)
    (h' : x.size < room') :
    (grammarWithin rounds room).read x = (grammarWithin rounds room').read x := by
  induction room generalizing room' x with
  | zero => exact absurd h (Nat.not_lt_zero _)
  | succ room ih =>
    -- what `x` opens is smaller, and has one level less of room on both sides
    obtain ⟨room', rfl⟩ : ∃ k, room' = k + 1 := ⟨room' - 1, by omega⟩
    rw [grammarWithin_succ, grammarWithin_succ]
    exact (outer_asks rounds x).congr (grammarWithin_stopsIn rounds room') fun y hy =>
      ih (by omega) (by omega)

namespace Inner

/-- The grammar without a limit on nesting: every opening has room for all that it can open. -/
def unbounded (rounds : Nat) : Inner :=
  ofRead fun x => (grammarWithin rounds (x.size + 1)).read x

variable {rounds : Nat}

theorem read_unbounded {room : Nat} {x : Opening} (h : x.size < room) :
    (unbounded rounds).read x = (grammarWithin rounds room).read x := by
  rw [unbounded, read_ofRead]
  exact grammarWithin_of_size_lt (Nat.lt_succ_self _) h

theorem unbounded_stopsIn (rounds : Nat) (x : Opening) :
    StopsIn x.marks ((unbounded rounds).read x) := by
  rw [read_unbounded (Nat.lt_succ_self _)]
  exact grammarWithin_stopsIn rounds _ x

/-- The grammar without a limit is the one around itself. -/
theorem outer_unbounded : (unbounded rounds).outer rounds = unbounded rounds := by
  refine ext_read fun x => ?_
  rw [read_unbounded (Nat.lt_succ_self x.size), grammarWithin_succ]
  exact (outer_asks rounds x).congr (grammarWithin_stopsIn rounds _) fun y hy => read_unbounded hy

/-- **There is one grammar without a limit**: only one is around itself. -/
theorem outer_eq_self_iff {inner : Inner} :
    inner.outer rounds = inner ↔ inner = unbounded rounds := by
  constructor
  · intro h
    refine ext_read fun x => ?_
    induction x using Opening.size_induction with
    | smaller x ih =>
      rw [← h, ← outer_unbounded]
      exact (outer_asks rounds x).congr (unbounded_stopsIn rounds) ih
  · rintro rfl
    exact outer_unbounded

end Inner

/-- Where the inner productions are not cut off, neither is what asks for them. -/
theorem Asks.isFree {α : Type} {bound : Nat} {s : List Mark}
    {f : Inner → Except ParseError (α × List Mark)} (h : Asks bound s f) {inner : Inner}
    (hi : ∀ x, StopsIn x.marks (inner.read x))
    (hfree : ∀ x : Opening, x.size < bound → IsFree (inner.read x)) : IsFree (f inner) := by
  induction h with
  | answer hr => exact hr.isFree
  | @ask s x next hx hsize _ ih =>
    have hread := hi x
    have hx := hfree x hsize
    dsimp only
    match inner.read x, hread, hx with
    | .ok (a, t), ht, _ => exact ih a t ht
    | .error e, _, he =>
      intro token? heq
      cases heq
      exact he token? rfl

/-- Without the limit, nothing is nested too deep. -/
theorem Inner.unbounded_isFree (rounds : Nat) (x : Opening) :
    IsFree ((unbounded rounds).read x) := by
  induction x using Opening.size_induction with
  | smaller x ih =>
    rw [← outer_unbounded]
    exact (outer_asks rounds x).isFree (unbounded_stopsIn rounds) ih

/-! ## What is open at once -/

/-- The grammar, but the opening `x` fails. -/
def Inner.failingAt (inner : Inner) (x : Opening) (e : ParseError) : Inner :=
  ofRead fun y => if y = x then .error e else inner.read y

section

variable {α γ : Type} (rounds : Nat)

/-- Without the limit, what is read opens `x`, not inside of something else that it opens: if `x`
failed, it would fail in the same way, whichever that is. -/
def Opens (f : Inner → Except ParseError γ) (x : Opening) : Prop :=
  ∀ e, f ((Inner.unbounded rounds).failingAt x e) = .error e

/-- What is read of an opening, given the productions inside it. -/
def Opening.reads (x : Opening) (inner : Inner) : Except ParseError (x.Tree × List Mark) :=
  (inner.outer rounds).read x

/-- While it reads, the production `x` has `n` others open inside each other, the innermost of which
is `y`; it is `x` itself if there are none. -/
def Opening.Holds : Nat → Opening → Opening → Prop
  | 0, x, y => y = x
  | n + 1, x, y => ∃ z, Opens rounds (x.reads rounds) z ∧ Opening.Holds n z y

/-- What is read opens the production `y` while `n` others are open inside each other. -/
def OpensInside (n : Nat) (f : Inner → Except ParseError γ) (y : Opening) : Prop :=
  ∃ x, Opens rounds f x ∧ x.Holds rounds n y

variable {rounds}

/-- An answer of its own opens nothing. -/
theorem not_opens_const (r : Except ParseError γ) (x : Opening) :
    ¬ Opens rounds (fun _ => r) x := by
  intro h
  have heq := (h ⟨.unexpectedToken, none⟩).symm.trans (h ⟨.returnOutsideFunction, none⟩)
  cases heq

/-- What is opened is what is asked for first, or it is opened behind that. -/
theorem opens_ask_iff {x y : Opening}
    {next : x.Tree × List Mark → Inner → Except ParseError (α × List Mark)} :
    Opens rounds (fun inner => inner.read x >>= fun r => next r inner) y ↔
      y = x ∨ ∃ r, (Inner.unbounded rounds).read x = .ok r ∧ Opens rounds (next r) y := by
  by_cases hy : y = x
  · subst hy
    refine iff_of_true (fun e => ?_) (.inl rfl)
    simp only [Inner.failingAt, Inner.read_ofRead, if_true]
    rfl
  · have hother (e : ParseError) :
        ((Inner.unbounded rounds).failingAt y e).read x = (Inner.unbounded rounds).read x := by
      simp only [Inner.failingAt, Inner.read_ofRead, if_neg (Ne.symm hy)]
    simp only [Opens, hother, hy, false_or]
    cases (Inner.unbounded rounds).read x with
    | ok r =>
      constructor
      · exact fun h => ⟨r, rfl, h⟩
      · rintro ⟨_, ⟨⟩, h⟩
        exact h
    | error e =>
      constructor
      · intro h
        have hconst : Opens rounds (fun _ => (.error e : Except ParseError (α × List Mark))) y := h
        exact absurd hconst (not_opens_const _ y)
      · rintro ⟨_, ⟨⟩, _⟩

/-- So it is with what is opened inside. -/
theorem opensInside_ask_iff {n : Nat} {x y : Opening}
    {next : x.Tree × List Mark → Inner → Except ParseError (α × List Mark)} :
    OpensInside rounds n (fun inner => inner.read x >>= fun r => next r inner) y ↔
      x.Holds rounds n y ∨
        ∃ r, (Inner.unbounded rounds).read x = .ok r ∧ OpensInside rounds n (next r) y := by
  simp only [OpensInside, opens_ask_iff]
  constructor
  · rintro ⟨z, rfl | ⟨r, hr, hz⟩, hy⟩
    · exact .inl hy
    · exact .inr ⟨r, hr, z, hz, hy⟩
  · rintro (hy | ⟨r, hr, z, hz, hy⟩)
    · exact ⟨x, .inl rfl, hy⟩
    · exact ⟨z, .inr ⟨r, hr, hz⟩, hy⟩

/-! ## The order in which productions are opened -/

section

variable {bound : Nat} {s t : List Mark} {f : Inner → Except ParseError (α × List Mark)}

theorem Asks.marks_suffix (h : Asks bound s f) {y : Opening} (hy : Opens rounds f y) :
    y.marks <:+ s := by
  induction h with
  | answer => exact absurd hy (not_opens_const _ y)
  | @ask s x next hx _ _ ih =>
    rcases opens_ask_iff.mp hy with rfl | ⟨⟨a, t⟩, hr, hy⟩
    · exact hx
    · have ht : t <:+ x.marks := by
        have hstops := Inner.unbounded_stopsIn rounds x
        rwa [hr] at hstops
      exact ((ih a t ht hy).trans ht).trans hx

/-- What is read to the end has closed all that it has opened. -/
theorem Asks.closes (h : Asks bound s f) {y : Opening} (hy : Opens rounds f y) {a : α}
    (hread : f (Inner.unbounded rounds) = .ok (a, t)) :
    ∃ b u, (Inner.unbounded rounds).read y = .ok (b, u) ∧ t <:+ u := by
  induction h with
  | answer => exact absurd hy (not_opens_const _ y)
  | @ask s x next hx _ hnext ih =>
    have hstops := Inner.unbounded_stopsIn rounds x
    dsimp only at hread
    cases hr : (Inner.unbounded rounds).read x with
    | error e =>
      rw [hr] at hread
      cases hread
    | ok r =>
      obtain ⟨b, u⟩ := r
      rw [hr] at hread hstops
      have hbehind : next (b, u) (Inner.unbounded rounds) = .ok (a, t) := hread
      rcases opens_ask_iff.mp hy with rfl | ⟨r', hr', hy⟩
      · refine ⟨b, u, hr, ?_⟩
        have hmore := (hnext b u hstops).stopsIn (Inner.unbounded_stopsIn rounds)
        rwa [hbehind] at hmore
      · rw [hr] at hr'
        cases hr'
        exact ih b u hstops hy hbehind

end

/-- No more is left inside a production than where it was opened. -/
theorem Opening.Holds.marks_suffix {n : Nat} {x y : Opening} (h : x.Holds rounds n y) :
    y.marks <:+ x.marks := by
  induction n generalizing x with
  | zero =>
    obtain rfl : y = x := h
    exact List.suffix_refl _
  | succ n ih =>
    obtain ⟨z, hz, hy⟩ := h
    exact (ih hy).trans ((outer_asks rounds x).marks_suffix hz)

theorem Asks.marks_suffix_inside {bound : Nat} {s : List Mark}
    {f : Inner → Except ParseError (α × List Mark)} (h : Asks bound s f) {n : Nat} {y : Opening}
    (hy : OpensInside rounds n f y) : y.marks <:+ s := by
  obtain ⟨x, hx, hy⟩ := hy
  exact hy.marks_suffix.trans (h.marks_suffix hx)

/-- Behind a production no more is left than inside it. -/
theorem Opening.Holds.suffix_of_ok {n : Nat} {x y : Opening} (h : x.Holds rounds n y) {a : x.Tree}
    {t : List Mark} (hread : (Inner.unbounded rounds).read x = .ok (a, t)) : t <:+ y.marks := by
  induction n generalizing x t with
  | zero =>
    obtain rfl := h
    have hstops := Inner.unbounded_stopsIn rounds y
    rwa [hread] at hstops
  | succ n ih =>
    obtain ⟨z, hz, hy⟩ := h
    rw [← Inner.outer_unbounded] at hread
    obtain ⟨b, u, hclosed, ht⟩ := (outer_asks rounds x).closes hz hread
    exact ht.trans (ih hy hclosed)

/-! ## Cutting off -/

/-- What is read with a limit fails where the first opening is too deep, and is what is read without
it if none is. -/
def CutOff (TooDeep : Opening → Prop) (cut free : Except ParseError γ) : Prop :=
  (∃ x, TooDeep x ∧ (∀ y, TooDeep y → y.marks <:+ x.marks) ∧
      cut = .error ⟨.nestingTooDeep, upcoming? x.marks⟩) ∨
    (∀ x, ¬ TooDeep x) ∧ cut = free

namespace CutOff

variable {TooDeep : Opening → Prop} {cut free : Except ParseError γ}

/-- Nothing else makes reading fail for its nesting. -/
theorem eq_nestingTooDeep_iff (h : CutOff TooDeep cut free) (hfree : IsFree free)
    (token? : Option Token) : cut = .error ⟨.nestingTooDeep, token?⟩ ↔
      ∃ x, TooDeep x ∧ (∀ y, TooDeep y → y.marks <:+ x.marks) ∧ token? = upcoming? x.marks := by
  rcases h with ⟨x, hx, hfirst, rfl⟩ | ⟨hnone, rfl⟩
  · constructor
    · rintro ⟨⟩
      exact ⟨x, hx, hfirst, rfl⟩
    · rintro ⟨y, hy, hyfirst, rfl⟩
      -- two openings that are both the first are at the same place
      have hsame := (hfirst y hy).eq_of_length_le (hyfirst x hx).length_le
      rw [hsame]
  · refine iff_of_false (hfree token?) ?_
    rintro ⟨x, hx, -⟩
    exact hnone x hx

theorem eq_of_none (h : CutOff TooDeep cut free) (hnone : ¬ ∃ x, TooDeep x) : cut = free := by
  rcases h with ⟨x, hx, -⟩ | ⟨-, hsame⟩
  · exact absurd ⟨x, hx⟩ hnone
  · exact hsame

/-- What is made of the answers is cut off too. -/
theorem map {δ : Type} (h : CutOff TooDeep cut free) (f : γ → δ) :
    CutOff TooDeep (f <$> cut) (f <$> free) := by
  rcases h with ⟨x, hx, hfirst, rfl⟩ | ⟨hnone, rfl⟩
  · exact .inl ⟨x, hx, hfirst, rfl⟩
  · exact .inr ⟨hnone, rfl⟩

end CutOff

/-- If every opening is cut off, so is what asks for them: at the first that is, if there is one. -/
theorem cutOff_of_asks {bound room : Nat} {s : List Mark}
    {f : Inner → Except ParseError (α × List Mark)} (h : Asks bound s f)
    (hopenings : ∀ x : Opening, CutOff (x.Holds rounds room)
      ((grammarWithin rounds room).read x) ((Inner.unbounded rounds).read x)) :
    CutOff (OpensInside rounds room f) (f (grammarWithin rounds room))
      (f (Inner.unbounded rounds)) := by
  induction h with
  | answer =>
    refine .inr ⟨?_, rfl⟩
    rintro y ⟨x, hx, -⟩
    exact not_opens_const _ x hx
  | @ask s x next hx _ hnext ih =>
    have hstops := Inner.unbounded_stopsIn rounds x
    rcases hopenings x with ⟨y, hdeep, hfirst, hcut⟩ | ⟨hnone, hsame⟩
    · -- what is asked for first is too deep inside, and all else is opened behind it
      dsimp only
      rw [hcut]
      refine .inl ⟨y, opensInside_ask_iff.mpr (.inl hdeep), fun z hz => ?_, rfl⟩
      rcases opensInside_ask_iff.mp hz with hz | ⟨⟨a, t⟩, hr, hz⟩
      · exact hfirst z hz
      · rw [hr] at hstops
        exact ((hnext a t hstops).marks_suffix_inside hz).trans (hdeep.suffix_of_ok hr)
    · dsimp only
      rw [hsame]
      cases hr : (Inner.unbounded rounds).read x with
      | error e =>
        refine .inr ⟨fun y hy => ?_, rfl⟩
        rcases opensInside_ask_iff.mp hy with hy | ⟨_, hok, _⟩
        · exact hnone y hy
        · rw [hr] at hok
          cases hok
      | ok r =>
        obtain ⟨a, t⟩ := r
        rw [hr] at hstops
        have hlater (y : Opening) : OpensInside rounds room
            (fun inner => inner.read x >>= fun r => next r inner) y ↔
              OpensInside rounds room (next (a, t)) y := by
          rw [opensInside_ask_iff, hr]
          constructor
          · rintro (hy | ⟨_, ⟨⟩, hy⟩)
            · exact absurd hy (hnone y)
            · exact hy
          · exact fun hy => .inr ⟨_, rfl, hy⟩
        unfold CutOff
        simp only [hlater]
        exact ih a t hstops

/-- Every opening is cut off where one inside it is too deep. -/
theorem opening_cutOff (room : Nat) (x : Opening) :
    CutOff (x.Holds rounds room) ((grammarWithin rounds room).read x)
      ((Inner.unbounded rounds).read x) := by
  induction room generalizing x with
  | zero =>
    refine .inl ⟨x, rfl, ?_, ?_⟩
    · rintro y rfl
      exact List.suffix_refl _
    · exact read_grammarWithin_zero rounds x
  | succ room ih =>
    rw [grammarWithin_succ, ← Inner.outer_unbounded]
    exact cutOff_of_asks (outer_asks rounds x) ih

end

/-! ## Parsing -/

/-- The program that a list of tokens writes, by the given grammar. -/
def parseBy (inner : Inner) (tokens : List Token) : Except ParseError (List Stmt) :=
  Prod.fst <$> program tokens.length inner (marks tokens)

/-- Without the limit, the program of the tokens opens the production `x` while `n` others are open
inside each other. -/
def ProgramOpens (tokens : List Token) (n : Nat) (x : Opening) : Prop :=
  OpensInside tokens.length n (fun inner => program tokens.length inner (marks tokens)) x

theorem parseBy_unbounded_isFree (tokens : List Token) :
    IsFree (parseBy (Inner.unbounded tokens.length) tokens) := by
  have hprogram := (program_opens tokens.length (marks tokens)).isFree
    (Inner.unbounded_stopsIn _) fun x _ => Inner.unbounded_isFree tokens.length x
  exact hprogram.map Prod.fst

/-- Parsing is cut off where a production is opened too deep. -/
theorem parse_cutOff (tokens : List Token) :
    CutOff (ProgramOpens tokens maxNesting) (parse tokens)
      (parseBy (Inner.unbounded tokens.length) tokens) :=
  (cutOff_of_asks (program_opens tokens.length (marks tokens)) (opening_cutOff maxNesting)).map
    Prod.fst

/-- **The limit on nesting only cuts off.** There is one grammar of the same productions without the
limit, the one that is around itself. Parsing finds the nesting too deep exactly if this grammar
opens a production while `maxNesting` others are open inside each other; it does so where that
happens first, at the token that is next then. In all other cases parsing makes of the tokens what
this grammar does. -/
theorem nesting_limit_only_cuts (tokens : List Token) :
    let free := Inner.unbounded tokens.length
    (∀ inner : Inner, inner.outer tokens.length = inner ↔ inner = free) ∧
      (∀ token?, parse tokens = .error ⟨.nestingTooDeep, token?⟩ ↔
        ∃ x, ProgramOpens tokens maxNesting x ∧
          (∀ y, ProgramOpens tokens maxNesting y → y.marks <:+ x.marks) ∧
          token? = upcoming? x.marks) ∧
      ((¬ ∃ x, ProgramOpens tokens maxNesting x) → parse tokens = parseBy free tokens) := by
  intro free
  have hcut := parse_cutOff tokens
  exact ⟨fun inner => Inner.outer_eq_self_iff,
    hcut.eq_nestingTooDeep_iff (parseBy_unbounded_isFree tokens), hcut.eq_of_none⟩

end TwinScript
