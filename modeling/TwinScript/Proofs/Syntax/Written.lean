import TwinScript.Proofs.Syntax.Leaves
import TwinScript.Proofs.Syntax.Placement

/-!
# Ways to write a program

A tree does not say how it was written. `Stmt.AllWritten` relates programs to all the tokens that
write them, if every application of an operator is in parentheses: there may be more parentheses,
and semicolons between statements, and line breaks wherever they do not end an expression. Each
statement begins on a line of its own.

The relation counts how deep blocks, parentheses, arguments and operands are nested, since the
grammar refuses what is nested too deep. The count is an upper bound.
-/

namespace TwinScript

/-! ## Expressions -/

/-- The operators that an operand may have before it. -/
def unaryOperators : List Symbol := [.bang, .minus]

/-- The operators that may stand between two operands. -/
def binaryOperators : List Symbol := operatorLevels.flatten

/-- The tokens write the items, each behind a comma, if `write` says how an item is written. -/
inductive BehindCommas {α : Type} (write : α → List Mark → Prop) : List α → List Mark → Prop
  | nil : BehindCommas write [] []
  | cons {a : α} {items : List α} {comma : Mark} {ms ns : List Mark}
      (hcomma : comma.token.kind = .symbol .comma) (ha : write a ms)
      (hrest : BehindCommas write items ns) : BehindCommas write (a :: items) (comma :: ms ++ ns)

/-- The tokens write the items with commas between them. -/
inductive Separated {α : Type} (write : α → List Mark → Prop) : List α → List Mark → Prop
  | nil : Separated write [] []
  | cons {a : α} {items : List α} {ms ns : List Mark} (ha : write a ms)
      (hrest : BehindCommas write items ns) : Separated write (a :: items) (ms ++ ns)

/-- The tokens write the expression, at most so many levels deep. An operator that could open a
statement, and the parenthesis of a call, are on the line of the token before. -/
inductive Expr.Written : Nat → Expr → List Mark → Prop
  | literal {d : Nat} {pos : Position} {value : Literal} {m : Mark}
      (hm : value.kind? = some m.token.kind) : Expr.Written d (.literal pos value) [m]
  | var {d : Nat} {pos : Position} {name : String} {m : Mark}
      (hm : m.token.kind = .identifier name) : Expr.Written d (.var pos name) [m]
  | paren {d d' : Nat} {e : Expr} {opening closing : Mark} {ms : List Mark} (hdeep : d < d')
      (hopening : opening.token.kind = .symbol .leftParen) (he : Expr.Written d e ms)
      (hclosing : closing.token.kind = .symbol .rightParen) :
      Expr.Written d' e (opening :: ms ++ [closing])
  | unary {d d' : Nat} {pos : Position} {op : Symbol} {operand : Expr} {opening sign closing : Mark}
      {ms : List Mark} (hdeep : d + 1 < d')
      (hopening : opening.token.kind = .symbol .leftParen) (hop : op ∈ unaryOperators)
      (hsign : sign.token.kind = .symbol op) (hoperand : Expr.Written d operand ms)
      (hclosing : closing.token.kind = .symbol .rightParen) :
      Expr.Written d' (.unary pos (.symbol op) operand) (opening :: (sign :: ms) ++ [closing])
  | binary {d d' : Nat} {pos : Position} {op : Symbol} {left right : Expr}
      {opening sign closing : Mark} {ls rs : List Mark} (hdeep : d < d')
      (hopening : opening.token.kind = .symbol .leftParen) (hleft : Expr.Written d left ls)
      (hop : op ∈ binaryOperators) (hsign : sign.token.kind = .symbol op)
      (hline : op.staysOnLine = true → sign.joined = true) (hright : Expr.Written d right rs)
      (hclosing : closing.token.kind = .symbol .rightParen) :
      Expr.Written d' (.binary pos (.symbol op) left right)
        (opening :: (ls ++ sign :: rs) ++ [closing])
  | call {d d' : Nat} {pos : Position} {callee : Expr} {args : List Expr} {opening closing : Mark}
      {cs ms : List Mark} {write : Expr → List Mark → Prop} (hcallee : Expr.Written d' callee cs)
      (hopening : opening.token.kind = .symbol .leftParen) (hline : opening.joined = true)
      (hdeep : args ≠ [] → d < d') (hargs : Separated write args ms)
      (hwrite : ∀ e ns, write e ns → Expr.Written d e ns)
      (hclosing : closing.token.kind = .symbol .rightParen) :
      Expr.Written d' (.call pos callee args) (cs ++ opening :: ms ++ [closing])

/-! ## Statements -/

/-- The token writes the name. -/
def NameWritten (name : String) (ms : List Mark) : Prop :=
  ∃ m, ms = [m] ∧ m.token.kind = .identifier name

mutual

/-- The tokens write the statement, at most so many levels deep. A value that is returned begins on
the line of its keyword. -/
inductive Stmt.Written : Nat → Stmt → List Mark → Prop
  | expr {d d' : Nat} {e : Expr} {ms : List Mark} (hdeep : d < d') (he : e.Written d ms) :
      Stmt.Written d' (.expr e) ms
  | assign {d d' : Nat} {name : String} {value : Expr} {m sign : Mark} {ms : List Mark}
      (hdeep : d < d') (hname : m.token.kind = .identifier name)
      (hsign : sign.token.kind = .symbol .equal) (hvalue : value.Written d ms) :
      Stmt.Written d' (.assign name value) (m :: sign :: ms)
  | block {d : Nat} {body : List Stmt} {bs : List Mark} (hbody : Stmt.BlockWritten d body bs) :
      Stmt.Written d (.block body) bs
  | ifThen {d d' : Nat} {condition : Expr} {body : List Stmt} {word : Mark} {cs bs : List Mark}
      (hword : word.token.kind = .keyword .ifWord) (hdeep : d < d')
      (hcondition : condition.Written d cs) (hbody : Stmt.BlockWritten d' body bs) :
      Stmt.Written d' (.ifThen condition (.block body)) (word :: cs ++ bs)
  | forEver {d : Nat} {pos : Position} {body : List Stmt} {word : Mark} {bs : List Mark}
      (hword : word.token.kind = .keyword .forWord) (hbody : Stmt.BlockWritten d body bs) :
      Stmt.Written d (.forLoop pos none (.block body)) (word :: bs)
  | forWhile {d d' : Nat} {pos : Position} {condition : Expr} {body : List Stmt} {word : Mark}
      {cs bs : List Mark} (hword : word.token.kind = .keyword .forWord) (hdeep : d < d')
      (hcondition : condition.Written d cs) (hbody : Stmt.BlockWritten d' body bs) :
      Stmt.Written d' (.forLoop pos (some condition) (.block body)) (word :: cs ++ bs)
  | breakLoop {d : Nat} {word : Mark} (hword : word.token.kind = .keyword .breakWord) :
      Stmt.Written d .breakLoop [word]
  | continueLoop {d : Nat} {word : Mark} (hword : word.token.kind = .keyword .continueWord) :
      Stmt.Written d .continueLoop [word]
  | returnNothing {d : Nat} {word : Mark} (hword : word.token.kind = .keyword .returnWord) :
      Stmt.Written d (.returnValue none) [word]
  | returnValue {d d' : Nat} {value : Expr} {word : Mark} {ms : List Mark}
      (hword : word.token.kind = .keyword .returnWord) (hdeep : d < d')
      (hvalue : value.Written d ms) (hline : ms.head?.any (·.joined) = true) :
      Stmt.Written d' (.returnValue (some value)) (word :: ms)
  | function {d : Nat} {name : String} {params : List String} {body : List Stmt}
      {word m opening closing : Mark} {ps bs : List Mark}
      (hword : word.token.kind = .keyword .fnWord) (hname : m.token.kind = .identifier name)
      (hopening : opening.token.kind = .symbol .leftParen)
      (hparams : Separated NameWritten params ps)
      (hclosing : closing.token.kind = .symbol .rightParen)
      (hbody : Stmt.BlockWritten d body bs) :
      Stmt.Written d (.function name params body) (word :: m :: opening :: ps ++ closing :: bs)

/-- The tokens write the statements in braces. -/
inductive Stmt.BlockWritten : Nat → List Stmt → List Mark → Prop
  | braces {d d' : Nat} {body : List Stmt} {opening closing : Mark} {ms : List Mark}
      (hdeep : d < d') (hopening : opening.token.kind = .symbol .leftBrace)
      (hbody : Stmt.AllWritten d body ms)
      (hclosing : closing.token.kind = .symbol .rightBrace) :
      Stmt.BlockWritten d' body (opening :: ms ++ [closing])

/-- The tokens write the statements one after the other, each on a new line, with any semicolons
around them. -/
inductive Stmt.AllWritten : Nat → List Stmt → List Mark → Prop
  | nil {d : Nat} : Stmt.AllWritten d [] []
  | semicolon {d : Nat} {body : List Stmt} {m : Mark} {ms : List Mark}
      (hm : m.token.kind = .symbol .semicolon) (hrest : Stmt.AllWritten d body ms) :
      Stmt.AllWritten d body (m :: ms)
  | cons {d : Nat} {s : Stmt} {body : List Stmt} {ms ns : List Mark} (hs : Stmt.Written d s ms)
      (hline : ms.head?.any (·.joined) = false) (hrest : Stmt.AllWritten d body ns) :
      Stmt.AllWritten d (s :: body) (ms ++ ns)

end

/-! ## Programs that the grammar knows -/

mutual

/-- Tokens write the values in the expression, and only operators of the grammar are applied. -/
def Expr.Grammatical : Expr → Prop
  | .literal _ value => value.kind?.isSome
  | .var _ _ => True
  | .unary _ op operand => (∃ s ∈ unaryOperators, op = .symbol s) ∧ operand.Grammatical
  | .binary _ op left right =>
    (∃ s ∈ binaryOperators, op = .symbol s) ∧ left.Grammatical ∧ right.Grammatical
  | .call _ callee args => callee.Grammatical ∧ Expr.AllGrammatical args

/-- Each of the expressions is grammatical. -/
def Expr.AllGrammatical : List Expr → Prop
  | [] => True
  | e :: rest => e.Grammatical ∧ Expr.AllGrammatical rest

end

/-- The statement is a block. -/
def Stmt.IsBlock (s : Stmt) : Prop := ∃ body, s = .block body

mutual

/-- The expressions in the statement are grammatical, and the bodies of conditionals and loops are
blocks. -/
def Stmt.Grammatical : Stmt → Prop
  | .expr e => e.Grammatical
  | .assign _ value => value.Grammatical
  | .block body => Stmt.AllGrammatical body
  | .ifThen condition body => condition.Grammatical ∧ body.IsBlock ∧ body.Grammatical
  | .forLoop _ condition body =>
    (∀ e ∈ condition, e.Grammatical) ∧ body.IsBlock ∧ body.Grammatical
  | .breakLoop => True
  | .continueLoop => True
  | .returnValue value => ∀ e ∈ value, e.Grammatical
  | .function _ _ body => Stmt.AllGrammatical body

/-- Each of the statements is grammatical. -/
def Stmt.AllGrammatical : List Stmt → Prop
  | [] => True
  | s :: rest => s.Grammatical ∧ Stmt.AllGrammatical rest

end

mutual

/-- How deep the expression is nested if it has no more parentheses than it needs. -/
def Expr.depth : Expr → Nat
  | .literal _ _ => 0
  | .var _ _ => 0
  | .unary _ _ operand => operand.depth + 2
  | .binary _ _ left right => max left.depth right.depth + 1
  | .call _ callee args => max callee.depth (Expr.depthInside args)

/-- How deep the expressions are nested one level further in. -/
def Expr.depthInside : List Expr → Nat
  | [] => 0
  | e :: rest => max (e.depth + 1) (Expr.depthInside rest)

end

mutual

/-- How deep the statement is nested if it has no more parentheses than it needs. -/
def Stmt.depth : Stmt → Nat
  | .expr e => e.depth + 1
  | .assign _ value => value.depth + 1
  | .block body => Stmt.allDepth body + 1
  | .ifThen condition body => max (condition.depth + 1) body.depth
  | .forLoop _ condition body => max (Expr.depthInside condition.toList) body.depth
  | .breakLoop => 0
  | .continueLoop => 0
  | .returnValue value => Expr.depthInside value.toList
  | .function _ _ body => Stmt.allDepth body + 1

/-- How deep the statements are nested. -/
def Stmt.allDepth : List Stmt → Nat
  | [] => 0
  | s :: rest => max s.depth (Stmt.allDepth rest)

end

/-! ## Every such program can be written -/

/-- The tokens know their lines: they follow a token on the line `before`, and the last of them and
that is on the line `last`. -/
inductive LaidOut : Nat → List Mark → Nat → Prop
  | nil {line : Nat} : LaidOut line [] line
  | cons {before last : Nat} {m : Mark} {ms : List Mark}
      (hm : m.joined = decide (m.token.pos.line = before))
      (hrest : LaidOut m.token.pos.line ms last) : LaidOut before (m :: ms) last

theorem LaidOut.append {before mid last : Nat} {ms ns : List Mark} (h : LaidOut before ms mid)
    (hrest : LaidOut mid ns last) : LaidOut before (ms ++ ns) last := by
  induction h with
  | nil => exact hrest
  | cons hm _ ih => exact .cons hm (ih hrest)

/-- Tokens that know their lines are marked accordingly. -/
theorem LaidOut.marksAfter_eq {before last : Nat} {ms : List Mark} (h : LaidOut before ms last)
    {previous : Token} (hprevious : previous.pos.line = before) :
    marksAfter previous (ms.map (·.token)) = ms := by
  induction h generalizing previous with
  | nil => rfl
  | @cons before last m ms hm _ ih =>
    obtain ⟨token, joined⟩ := m
    subst hprevious
    rw [List.map_cons, marksAfter, ih rfl]
    exact congrArg (⟨token, ·⟩ :: ms) hm.symm

/-- A token of some kind on a line, behind one on the line `before`. -/
def Token.Kind.markOn (kind : Token.Kind) (before line : Nat) : Mark :=
  ⟨⟨kind, kind.text, ⟨line, 1⟩⟩, decide (line = before)⟩

/-- A symbol on a line, behind a token on the line `before`. -/
abbrev Symbol.markOn (s : Symbol) (before line : Nat) : Mark :=
  (Token.Kind.symbol s).markOn before line

/-- A reserved word on a line, behind a token on the line `before`. -/
abbrev Keyword.markOn (k : Keyword) (before line : Nat) : Mark :=
  (Token.Kind.keyword k).markOn before line

theorem LaidOut.markOn (kind : Token.Kind) {before line last : Nat} {ms : List Mark}
    (h : LaidOut line ms last) : LaidOut before (kind.markOn before line :: ms) last :=
  .cons rfl h

/-- Items that can be written on a line can be written with commas between them. -/
theorem BehindCommas.exists_laidOut {α : Type} {write : α → List Mark → Prop} (line : Nat)
    {items : List α} (h : ∀ a ∈ items, ∃ ms, write a ms ∧ LaidOut line ms line) :
    ∃ ms, BehindCommas write items ms ∧ LaidOut line ms line := by
  induction items with
  | nil => exact ⟨[], .nil, .nil⟩
  | cons a items ih =>
    rw [List.forall_mem_cons] at h
    obtain ⟨⟨ms, hms, hline⟩, hitems⟩ := h
    obtain ⟨ns, hns, hline'⟩ := ih hitems
    exact ⟨Symbol.comma.markOn line line :: ms ++ ns, .cons rfl hms hns,
      (LaidOut.markOn _ hline).append hline'⟩

theorem Separated.exists_laidOut {α : Type} {write : α → List Mark → Prop} (line : Nat)
    {items : List α} (h : ∀ a ∈ items, ∃ ms, write a ms ∧ LaidOut line ms line) :
    ∃ ms, Separated write items ms ∧ LaidOut line ms line := by
  cases items with
  | nil => exact ⟨[], .nil, .nil⟩
  | cons a items =>
    rw [List.forall_mem_cons] at h
    obtain ⟨⟨ms, hms, hline⟩, hitems⟩ := h
    obtain ⟨ns, hns, hline'⟩ := BehindCommas.exists_laidOut line hitems
    exact ⟨ms ++ ns, .cons hms hns, hline.append hline'⟩

/-- Parentheses or braces on the lines where what is between them begins and ends. -/
theorem LaidOut.enclosed (opening closing : Symbol) {before line last : Nat} {ms : List Mark}
    (h : LaidOut line ms last) :
    LaidOut before (opening.markOn before line :: ms ++ [closing.markOn last last]) last :=
  (LaidOut.markOn _ h).append (.markOn _ .nil)

theorem Expr.Written.ne_nil {d : Nat} {e : Expr} {ms : List Mark} (h : e.Written d ms) :
    ms ≠ [] := by
  cases h <;> simp

mutual

/-- An expression can be written on one line, as deep as it is nested. -/
theorem Expr.exists_written : (e : Expr) → e.Grammatical → ∀ {d}, e.depth ≤ d → ∀ before line,
    ∃ ms, e.Written d ms ∧ LaidOut before ms line ∧
      ms.head?.any (·.joined) = decide (line = before)
  | .literal _ value, h, _, _, before, line => by
    obtain ⟨kind, hkind⟩ := Option.isSome_iff_exists.mp h
    exact ⟨[kind.markOn before line], .literal hkind, .markOn _ .nil, rfl⟩
  | .var _ name, _, _, _, before, line =>
    ⟨[(Token.Kind.identifier name).markOn before line], .var rfl, .markOn _ .nil, rfl⟩
  | .unary _ op operand, h, d, hd, before, line => by
    obtain ⟨⟨s, hs, rfl⟩, hoperand⟩ := h
    rw [depth] at hd
    have hroom : operand.depth ≤ d - 2 := by omega
    obtain ⟨ms, hms, hline, -⟩ := operand.exists_written hoperand hroom line line
    exact ⟨Symbol.leftParen.markOn before line :: (s.markOn line line :: ms) ++
      [Symbol.rightParen.markOn line line], .unary (by omega) rfl hs rfl hms rfl,
      .enclosed _ _ (.markOn _ hline), rfl⟩
  | .binary _ op left right, h, d, hd, before, line => by
    obtain ⟨⟨s, hs, rfl⟩, hleft, hright⟩ := h
    rw [depth] at hd
    have hroomLeft : left.depth ≤ d - 1 := by omega
    have hroomRight : right.depth ≤ d - 1 := by omega
    obtain ⟨ls, hls, hline, -⟩ := left.exists_written hleft hroomLeft line line
    obtain ⟨rs, hrs, hline', -⟩ := right.exists_written hright hroomRight line line
    have hjoined : (s.markOn line line).joined = true := decide_eq_true rfl
    exact ⟨Symbol.leftParen.markOn before line :: (ls ++ s.markOn line line :: rs) ++
      [Symbol.rightParen.markOn line line],
      .binary (by omega) rfl hls hs rfl (fun _ => hjoined) hrs rfl,
      .enclosed _ _ (hline.append (.markOn _ hline')), rfl⟩
  | .call _ callee args, h, d, hd, before, line => by
    rw [depth] at hd
    have hroomCallee : callee.depth ≤ d := by omega
    have hroomArgs : depthInside args ≤ d := by omega
    obtain ⟨cs, hcs, hline, hhead⟩ := callee.exists_written h.1 hroomCallee before line
    obtain ⟨ms, hms, hline'⟩ :=
      Separated.exists_laidOut line (Expr.exists_allWritten args h.2 hroomArgs line)
    have hdeep : args ≠ [] → d - 1 < d := by
      cases args with
      | nil => exact fun h => absurd rfl h
      | cons e rest =>
        rw [depthInside] at hroomArgs
        omega
    refine ⟨cs ++ Symbol.leftParen.markOn line line :: ms ++ [Symbol.rightParen.markOn line line],
      .call hcs rfl (decide_eq_true rfl) hdeep hms (fun _ _ h => h) rfl,
      (hline.append (.markOn _ hline')).append (.markOn _ .nil), ?_⟩
    obtain ⟨m, rest, rfl⟩ := List.exists_cons_of_ne_nil hcs.ne_nil
    exact hhead

theorem Expr.exists_allWritten : (es : List Expr) → Expr.AllGrammatical es → ∀ {d},
    Expr.depthInside es ≤ d → ∀ line, ∀ e ∈ es, ∃ ms, e.Written (d - 1) ms ∧ LaidOut line ms line
  | [], _, _, _, _ => fun e he => absurd he List.not_mem_nil
  | e :: rest, h, d, hd, line => by
    rw [depthInside] at hd
    have hroom : e.depth ≤ d - 1 := by omega
    have hroomRest : depthInside rest ≤ d := by omega
    rw [List.forall_mem_cons]
    obtain ⟨ms, hms, hline, -⟩ := e.exists_written h.1 hroom line line
    exact ⟨⟨ms, hms, hline⟩, Expr.exists_allWritten rest h.2 hroomRest line⟩

end

/-- A condition or a value, if there is one, can be written on the line. -/
theorem Expr.exists_written? {e? : Option Expr} (h : ∀ e ∈ e?, e.Grammatical) {d : Nat}
    (hd : Expr.depthInside e?.toList ≤ d) (line : Nat) :
    ∀ e ∈ e?, d - 1 < d ∧ ∃ ms, e.Written (d - 1) ms ∧ LaidOut line ms line ∧
      ms.head?.any (·.joined) = true := by
  rintro e rfl
  rw [Option.toList_some, depthInside] at hd
  have hroom : e.depth ≤ d - 1 := by omega
  obtain ⟨ms, hms, hline, hhead⟩ := e.exists_written (h e rfl) hroom line line
  exact ⟨by omega, ms, hms, hline, hhead.trans (decide_eq_true rfl)⟩

mutual

/-- A statement can be written from a line on, as deep as it is nested. -/
theorem Stmt.exists_written : (s : Stmt) → s.Grammatical → ∀ {d}, s.depth ≤ d → ∀ before line,
    ∃ ms last, s.Written d ms ∧ LaidOut before ms last ∧
      ms.head?.any (·.joined) = decide (line = before)
  | .expr e, h, d, hd, before, line => by
    rw [depth] at hd
    have hroom : e.depth ≤ d - 1 := by omega
    obtain ⟨ms, hms, hline, hhead⟩ := e.exists_written h hroom before line
    exact ⟨ms, line, .expr (by omega) hms, hline, hhead⟩
  | .assign name value, h, d, hd, before, line => by
    rw [depth] at hd
    have hroom : value.depth ≤ d - 1 := by omega
    obtain ⟨ms, hms, hline, -⟩ := value.exists_written h hroom line line
    exact ⟨(Token.Kind.identifier name).markOn before line :: Symbol.equal.markOn line line :: ms,
      line, .assign (by omega) rfl rfl hms, .markOn _ (.markOn _ hline), rfl⟩
  | .block body, h, d, hd, before, line => by
    rw [depth] at hd
    have hroom : allDepth body ≤ d - 1 := by omega
    obtain ⟨ms, last, hms, hline, -⟩ := Stmt.exists_allWritten body h hroom line
    exact ⟨Symbol.leftBrace.markOn before line :: ms ++ [Symbol.rightBrace.markOn last last], last,
      .block (.braces (by omega) rfl hms rfl), .enclosed _ _ hline, rfl⟩
  | .ifThen condition body, h, d, hd, before, line => by
    rw [depth] at hd
    have hroom : condition.depth ≤ d - 1 := by omega
    have hroomBody : body.depth ≤ d := by omega
    obtain ⟨cs, hcs, hline, -⟩ := condition.exists_written h.1 hroom line line
    obtain ⟨bs, last, hbs, hlast, -⟩ := body.exists_written h.2.2 hroomBody line line
    obtain ⟨statements, rfl⟩ := h.2.1
    cases hbs with
    | block hblock =>
      exact ⟨Keyword.ifWord.markOn before line :: cs ++ bs, last,
        .ifThen rfl (by omega) hcs hblock, (LaidOut.markOn _ hline).append hlast, rfl⟩
  | .forLoop pos condition body, h, d, hd, before, line => by
    rw [depth] at hd
    have hroom : Expr.depthInside condition.toList ≤ d := by omega
    have hroomBody : body.depth ≤ d := by omega
    have hcondition := Expr.exists_written? h.1 hroom line
    obtain ⟨bs, last, hbs, hlast, -⟩ := body.exists_written h.2.2 hroomBody line line
    obtain ⟨statements, rfl⟩ := h.2.1
    cases hbs with
    | block hblock =>
      cases condition with
      | none =>
        exact ⟨Keyword.forWord.markOn before line :: bs, last, .forEver rfl hblock,
          .markOn _ hlast, rfl⟩
      | some condition =>
        obtain ⟨hdeep, cs, hcs, hline, -⟩ := hcondition condition rfl
        exact ⟨Keyword.forWord.markOn before line :: cs ++ bs, last,
          .forWhile rfl hdeep hcs hblock, (LaidOut.markOn _ hline).append hlast, rfl⟩
  | .breakLoop, _, _, _, before, line =>
    ⟨[Keyword.breakWord.markOn before line], line, .breakLoop rfl, .markOn _ .nil, rfl⟩
  | .continueLoop, _, _, _, before, line =>
    ⟨[Keyword.continueWord.markOn before line], line, .continueLoop rfl, .markOn _ .nil, rfl⟩
  | .returnValue value, h, d, hd, before, line => by
    have hvalue := Expr.exists_written? h hd line
    cases value with
    | none =>
      exact ⟨[Keyword.returnWord.markOn before line], line, .returnNothing rfl, .markOn _ .nil, rfl⟩
    | some value =>
      obtain ⟨hdeep, ms, hms, hline, hhead⟩ := hvalue value rfl
      exact ⟨Keyword.returnWord.markOn before line :: ms, line,
        .returnValue rfl hdeep hms hhead, .markOn _ hline, rfl⟩
  | .function name params body, h, d, hd, before, line => by
    rw [depth] at hd
    have hroom : allDepth body ≤ d - 1 := by omega
    obtain ⟨ms, last, hms, hline, -⟩ := Stmt.exists_allWritten body h hroom line
    have hparams : ∀ param ∈ params, ∃ ps, NameWritten param ps ∧ LaidOut line ps line :=
      fun param _ => ⟨[(Token.Kind.identifier param).markOn line line], ⟨_, rfl, rfl⟩,
        .markOn _ .nil⟩
    obtain ⟨ps, hps, hline'⟩ := Separated.exists_laidOut line hparams
    refine ⟨Keyword.fnWord.markOn before line :: (Token.Kind.identifier name).markOn line line ::
      Symbol.leftParen.markOn line line :: ps ++ Symbol.rightParen.markOn line line ::
      (Symbol.leftBrace.markOn line line :: ms ++ [Symbol.rightBrace.markOn last last]), last,
      .function rfl rfl rfl hps rfl (.braces (by omega) rfl hms rfl), ?_, rfl⟩
    have hnames : LaidOut before (Keyword.fnWord.markOn before line ::
        (Token.Kind.identifier name).markOn line line ::
        Symbol.leftParen.markOn line line :: ps) line :=
      .markOn _ (.markOn _ (.markOn _ hline'))
    exact hnames.append (.markOn _ (.enclosed _ _ hline))

/-- Statements can be written one below the other. -/
theorem Stmt.exists_allWritten : (body : List Stmt) → Stmt.AllGrammatical body → ∀ {d},
    Stmt.allDepth body ≤ d → ∀ before,
    ∃ ms last, Stmt.AllWritten d body ms ∧ LaidOut before ms last ∧
      ms.head?.any (·.joined) = false
  | [], _, _, _, before => ⟨[], before, .nil, .nil, rfl⟩
  | s :: rest, h, d, hd, before => by
    rw [allDepth] at hd
    have hroom : s.depth ≤ d := by omega
    have hroomRest : allDepth rest ≤ d := by omega
    obtain ⟨ms, mid, hms, hmid, hhead⟩ := s.exists_written h.1 hroom before (before + 1)
    obtain ⟨ns, last, hns, hlast, hnext⟩ := Stmt.exists_allWritten rest h.2 hroomRest mid
    have hline : ms.head?.any (·.joined) = false := hhead.trans (decide_eq_false (by omega))
    refine ⟨ms ++ ns, last, .cons hms hline hns, hmid.append hlast, ?_⟩
    cases ms with
    | nil => exact hnext
    | cons m more => exact hline

end

/-- A list of tokens writes the program, as deep as it is nested. -/
theorem Stmt.exists_tokens {program : List Stmt} (h : Stmt.AllGrammatical program) :
    ∃ tokens, Stmt.AllWritten (Stmt.allDepth program) program (marks tokens) := by
  obtain ⟨ms, last, hms, hlaid, hhead⟩ := Stmt.exists_allWritten program h (Nat.le_refl _) 0
  have hmarks : marks (ms.map (·.token)) = ms := by
    cases hlaid with
    | nil => rfl
    | @cons _ _ m ms hm hrest =>
      obtain ⟨token, joined⟩ := m
      obtain rfl : joined = false := by simpa using hhead
      rw [List.map_cons, marks, hrest.marksAfter_eq rfl]
  exact ⟨_, hmarks.symm ▸ hms⟩

end TwinScript
