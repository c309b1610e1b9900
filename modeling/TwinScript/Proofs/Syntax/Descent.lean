import TwinScript.Syntax.Grammar

/-!
# Descending with a cursor

The same grammar, read with a cursor that moves over the list of tokens: its index is where the next
token is looked up, and what surrounds that place is kept beside it, entered and left by the
productions themselves. Nothing is taken for granted here that `Grammar` gets from its types. The
index may run past the end, a token may be asked for where there is none, what surrounds a production
may be left changed, and a repetition or a production that contains itself may go on for ever.

* `Landing`: how a part ends. To look back where there is no token leads astray, and what needs more
  rounds or levels than it is given stays unfinished.
* `Descent`: a part of the descent, the primitives, and one definition for each production.
* `Rule`: the productions, to say of all of them what each does.
-/

namespace TwinScript

/-- Where the descent is, and what surrounds that place. -/
structure Cursor where
  /-- The number of the token that comes next. -/
  index : Nat
  /-- How many loops of the same function are around. -/
  loopDepth : Nat
  /-- A function is around. -/
  inFunction : Bool
  /-- How many productions are open that count towards the limit. -/
  nesting : Nat
  deriving DecidableEq

namespace Cursor

/-- Before the first token. -/
def start : Cursor := ⟨0, 0, false, 0⟩

/-- Another index, in the same surroundings. -/
def moved (c : Cursor) (i : Nat) : Cursor := { c with index := i }

/-- What a statement knows of its surroundings. -/
def context (c : Cursor) : Context := ⟨decide (0 < c.loopDepth), c.inFunction⟩

@[simp] theorem index_moved (c : Cursor) (i : Nat) : (c.moved i).index = i := rfl

end Cursor

/-- How a part of the descent ends. -/
inductive Landing (α : Type) where
  /-- With a result. -/
  | done (a : α) (c : Cursor)
  /-- With an error. -/
  | failed (e : ParseError) (c : Cursor)
  /-- It has looked back at a token that does not exist. -/
  | astray
  /-- It has not come to an end within the rounds and levels that it was given. -/
  | unfinished

namespace Landing

variable {α β : Type}

/-- What comes behind a result. The other ends are final. -/
def andThen (next : α → Cursor → Landing β) : Landing α → Landing β
  | done a c => next a c
  | failed e c => failed e c
  | astray => astray
  | unfinished => unfinished

/-- The same end elsewhere. -/
def mapCursor (f : Cursor → Cursor) : Landing α → Landing α
  | done a c => done a (f c)
  | failed e c => failed e (f c)
  | astray => astray
  | unfinished => unfinished

end Landing

/-- A part of the descent over a list of tokens. -/
def Descent (α : Type) : Type := List Token → Cursor → Landing α

namespace Descent

variable {α β : Type} {tokens : List Token} {c c' : Cursor}

instance : Monad Descent where
  pure a := fun _ c => .done a c
  bind p q := fun tokens c => (p tokens c).andThen fun a c' => q a tokens c'

theorem bind_of_done {p : Descent α} {a : α} (h : p tokens c = .done a c') (q : α → Descent β) :
    (p >>= q) tokens c = q a tokens c' := by
  change (p tokens c).andThen _ = _
  rw [h]
  rfl

theorem bind_of_failed {p : Descent α} {e : ParseError} (h : p tokens c = .failed e c')
    (q : α → Descent β) : (p >>= q) tokens c = .failed e c' := by
  change (p tokens c).andThen _ = _
  rw [h]
  rfl

theorem ite_apply (P : Prop) [Decidable P] (p p' : Descent α) :
    (if P then p else p') tokens c = if P then p tokens c else p' tokens c := by
  split <;> rfl

/-! ## Primitives -/

/-- Needs more than it is given. -/
def unfinished : Descent α := fun _ _ => .unfinished

/-- The cursor as it is. -/
def cursor : Descent Cursor := fun _ c => .done c c

theorem cursor_bind (f : Cursor → Descent α) : (cursor >>= f) tokens c = f c tokens c := rfl

/-- The token that comes next, if there is one. -/
def peek? : Descent (Option Token) := fun tokens c => .done tokens[c.index]? c

theorem peek?_bind (f : Option Token → Descent α) :
    (peek? >>= f) tokens c = f tokens[c.index]? tokens c := rfl

/-- The token before the cursor, of which there has to be one. -/
def previous : Descent Token := fun tokens c =>
  if c.index = 0 then .astray
  else
    match tokens[c.index - 1]? with
    | some token => .done token c
    | none => .astray

/-- Looking back at a token that exists. -/
theorem previous_of_some {token : Token} (hzero : c.index ≠ 0)
    (h : tokens[c.index - 1]? = some token) : previous tokens c = .done token c := by
  unfold previous
  rw [if_neg hzero, h]

/-- Moves on by one token. -/
def step : Descent Unit := fun _ c => .done () (c.moved (c.index + 1))

/-- Moves on by one token, and says which it was. It moves on if there was none, too. -/
def advance : Descent (Option Token) := do
  let next? ← peek?
  step
  pure next?

/-- Fails at the given token. -/
def fail (fault : ParseFault) (token? : Option Token) : Descent α := fun _ c =>
  .failed ⟨fault, token?⟩ c

/-- Fails at the token that comes next. -/
def failNext (fault : ParseFault) : Descent α := do
  fail fault (← peek?)

/-- Whether a token of this kind comes next. -/
def check (kind : Token.Kind) : Descent Bool := do
  pure ((← peek?).any (·.kind = kind))

theorem check_apply (kind : Token.Kind) :
    check kind tokens c = .done ((tokens[c.index]?).any (·.kind = kind)) c := rfl

/-- Whether a token of this kind comes next on the line of the token before it. -/
def checkOnLine (kind : Token.Kind) : Descent Bool := do
  if (← cursor).index = 0 then
    pure false
  else
    match ← peek? with
    | none => pure false
    | some token =>
      if token.kind = kind then
        let before ← previous
        pure (decide (token.pos.line = before.pos.line))
      else
        pure false

/-- Takes a token of one of these kinds if it comes next, and says whether it did. -/
def acceptAny (kinds : List Token.Kind) : Descent Bool := do
  match ← peek? with
  | none => pure false
  | some token =>
    if kinds.contains token.kind then
      step
      pure true
    else
      pure false

/-- Takes a token of this kind if it comes next, and says whether it did. -/
def accept (kind : Token.Kind) : Descent Bool := acceptAny [kind]

/-- Takes a token of one of these kinds if it comes next on its line, and says whether it did. -/
def acceptOnLine : List Token.Kind → Descent Bool
  | [] => pure false
  | kind :: kinds => do
    if ← checkOnLine kind then
      step
      pure true
    else
      acceptOnLine kinds

/-- Takes a token of this kind, which has to come next. -/
def expect (kind : Token.Kind) (what : String) : Descent Unit := do
  if ← check kind then
    step
    let _ ← previous
    pure ()
  else
    failNext (.expected what)

/-- Takes a name. -/
def identifier : Descent String := do
  match ← peek? with
  | some ⟨.identifier name, _, _⟩ =>
    step
    pure name
  | _ => failNext (.expected "identifier")

/-- Enters other surroundings for a part, and leaves them behind it, also if it fails. -/
def within (enter leave : Cursor → Cursor) (p : Descent α) : Descent α := fun tokens c =>
  (p tokens (enter c)).mapCursor leave

/-- A part that is one level further in, if the limit allows it. -/
def nested (p : Descent α) : Descent α := do
  if maxNesting ≤ (← cursor).nesting then
    failNext .nestingTooDeep
  else
    within (fun c => { c with nesting := c.nesting + 1 })
      (fun c => { c with nesting := c.nesting - 1 }) p

/-- A part inside one more loop. -/
def insideLoop (p : Descent α) : Descent α :=
  within (fun c => { c with loopDepth := c.loopDepth + 1 })
    (fun c => { c with loopDepth := c.loopDepth - 1 }) p

/-- A part inside a function. The loops around the function are not around the part. -/
def insideFunction (p : Descent α) : Descent α := do
  let outer ← cursor
  within (fun c => { c with loopDepth := 0, inFunction := true })
    (fun c => { c with loopDepth := outer.loopDepth, inFunction := outer.inFunction }) p

/-! ## Repetition -/

/-- Takes `item` again and again, each behind a comma; `items` are taken already (last first). -/
def afterCommas (item : Descent α) : Nat → List α → Descent (List α)
  | 0, _ => unfinished
  | rounds + 1, items => do
    if ← accept (.symbol .comma) then
      let next ← item
      afterCommas item rounds (next :: items)
    else
      pure items.reverse

/-- Takes items with commas between them; there are none if a closing parenthesis comes at once. -/
def items (rounds : Nat) (item : Descent α) : Descent (List α) := do
  if ← check (.symbol .rightParen) then
    pure []
  else
    let first ← item
    afterCommas item rounds [first]

/-- Takes items with commas between them, and the closing parenthesis. -/
def commaSeparated (rounds : Nat) (item : Descent α) (what : String) : Descent (List α) := do
  let items ← items rounds item
  expect (.symbol .rightParen) what
  pure items

/-- The operators of one level that follow `left`, grouped from the left. -/
def operatorsOn (goesOn : Descent Bool) (operand : Descent Expr) : Nat → Expr → Descent Expr
  | 0, _ => unfinished
  | rounds + 1, left => do
    if ← goesOn then
      let op ← previous
      let right ← operand
      operatorsOn goesOn operand rounds (.binary op.pos op.kind left right)
    else
      pure left

/-- An expression of one level of operators. -/
def level (rounds : Nat) (goesOn : Descent Bool) (operand : Descent Expr) : Descent Expr := do
  let left ← operand
  operatorsOn goesOn operand rounds left

/-- Takes all semicolons that come next. -/
def skipSemicolons : Nat → Descent Unit
  | 0 => unfinished
  | rounds + 1 => do
    if ← accept (.symbol .semicolon) then
      skipSemicolons rounds
    else
      pure ()

/-! ## Productions -/

/-- The productions that contain themselves, one level further in. -/
structure Deeper where
  /-- What an expression is. -/
  logicOr : Descent Expr
  /-- The operand of a prefix operator. -/
  unary : Descent Expr
  /-- The statements of a block, behind its opening brace, and the closing one. -/
  blockContents : Descent (List Stmt)

section

variable (rounds : Nat) (deeper : Deeper)

/-- An expression. -/
def expression : Descent Expr := nested deeper.logicOr

/-- A block, behind its opening brace. -/
def block : Descent (List Stmt) := nested deeper.blockContents

/-- What a literal, a name or an opening parenthesis begins, behind that token. -/
def operandBehind (token : Token) : Descent Expr :=
  match Literal.ofKind? token.kind, token.kind with
  | some value, _ => pure (.literal token.pos value)
  | none, .identifier name => pure (.var token.pos name)
  | none, .symbol .leftParen => do
    let e ← expression deeper
    expect (.symbol .rightParen) "')'"
    pure e
  | none, _ => fail .unexpectedToken (some token)

/-- A literal, a name, or an expression in parentheses. -/
def primary : Descent Expr := do
  match ← advance with
  | none => fail .unexpectedToken none
  | some token => operandBehind deeper token

/-- The arguments of a call, behind the opening parenthesis. -/
def finishCall (callee : Expr) : Descent Expr := do
  let args ← commaSeparated rounds (expression deeper) "')' after arguments"
  pure (.call callee.pos callee args)

/-- The calls that follow the expression `callee`. -/
def callsOn : Nat → Expr → Descent Expr
  | 0, _ => unfinished
  | more + 1, callee => do
    if ← acceptOnLine [.symbol .leftParen] then
      let result ← finishCall rounds deeper callee
      callsOn more result
    else
      pure callee

/-- A primary expression and the calls on it. -/
def call : Descent Expr := do
  let callee ← primary deeper
  callsOn rounds deeper rounds callee

/-- A call, or a prefix operator and its operand. -/
def unary : Descent Expr := do
  if ← acceptAny [.symbol .bang, .symbol .minus] then
    let op ← previous
    let operand ← nested deeper.unary
    pure (.unary op.pos op.kind operand)
  else
    call rounds deeper

/-- Products, quotients and remainders. -/
def factor : Descent Expr :=
  level rounds (acceptAny [.symbol .slash, .symbol .star, .symbol .percent]) (unary rounds deeper)

/-- Sums and differences, whose operators do not begin a line. -/
def term : Descent Expr :=
  level rounds (acceptOnLine [.symbol .plus, .symbol .minus]) (factor rounds deeper)

/-- Comparisons by order. -/
def comparison : Descent Expr :=
  level rounds
    (acceptAny [.symbol .greater, .symbol .greaterEqual, .symbol .less, .symbol .lessEqual])
    (term rounds deeper)

/-- Comparisons by equality. -/
def equality : Descent Expr :=
  level rounds (acceptAny [.symbol .bangEqual, .symbol .equalEqual]) (comparison rounds deeper)

/-- Conjunctions. -/
def logicAnd : Descent Expr :=
  level rounds (acceptAny [.symbol .andAnd]) (equality rounds deeper)

/-- Disjunctions. -/
def logicOr : Descent Expr :=
  level rounds (acceptAny [.symbol .orOr]) (logicAnd rounds deeper)

/-- The block that is the body of a conditional or a loop. -/
def body : Descent Stmt := do
  expect (.symbol .leftBrace) "'\x7b'"
  let statements ← block deeper
  pure (.block statements)

/-- A conditional, behind its keyword. -/
def conditional : Descent Stmt := do
  let condition ← expression deeper
  let body ← body deeper
  pure (.ifThen condition body)

/-- The condition of a loop: there is none if the body comes at once. -/
def loopGuard : Descent (Option Expr) := do
  if ← check (.symbol .leftBrace) then
    pure none
  else
    let e ← expression deeper
    pure (some e)

/-- A loop, behind its keyword. -/
def loop : Descent Stmt := do
  let keyword ← previous
  let condition ← loopGuard deeper
  let body ← insideLoop (body deeper)
  pure (.forLoop keyword.pos condition body)

/-- A statement of one reserved word that needs a loop around it, behind that word. -/
def loopControl (k : Keyword) (word : Stmt) : Descent Stmt := do
  if (← cursor).loopDepth = 0 then
    let keyword ← previous
    fail (.loopControlOutsideLoop k) (some keyword)
  else
    pure word

/-- The block that is the body of a function. -/
def functionBody : Descent (List Stmt) := do
  expect (.symbol .leftBrace) "'\x7b' before function body"
  block deeper

/-- A function, behind its keyword. -/
def function : Descent Stmt := do
  let name ← identifier
  expect (.symbol .leftParen) "'(' after function name"
  let params ← commaSeparated rounds identifier "')' after parameters"
  let body ← insideFunction (functionBody deeper)
  pure (.function name params body)

/-- The value of a `return`, if one follows on the line of the keyword before the end of the
statement and of the block. -/
def returnedValue (keyword : Token) : Descent (Option Expr) := do
  let hasValue := (← peek?).any fun token =>
    token.pos.line = keyword.pos.line && token.kind ≠ .symbol .rightBrace &&
      token.kind ≠ .symbol .semicolon
  if hasValue then
    let value ← expression deeper
    pure (some value)
  else
    pure none

/-- A `return`, behind its keyword. -/
def returning : Descent Stmt := do
  let keyword ← previous
  if (← cursor).inFunction then
    let value ← returnedValue deeper keyword
    pure (.returnValue value)
  else
    fail .returnOutsideFunction (some keyword)

/-- Whether a name and the sign of an assignment come next. -/
def atAssignment : Descent Bool := fun tokens c =>
  match tokens[c.index]? with
  | some ⟨.identifier _, _, _⟩ =>
    .done (tokens[c.index + 1]?.any (·.kind = .symbol .equal)) c
  | _ => .done false c

/-- An assignment. -/
def assignment : Descent Stmt := do
  let name ← identifier
  expect (.symbol .equal) "'='"
  let value ← expression deeper
  pure (.assign name value)

/-- A statement. -/
def statement : Descent Stmt := do
  if ← accept (.keyword .ifWord) then conditional deeper
  else if ← accept (.keyword .forWord) then loop deeper
  else if ← accept (.keyword .breakWord) then loopControl .breakWord .breakLoop
  else if ← accept (.keyword .continueWord) then loopControl .continueWord .continueLoop
  else if ← accept (.keyword .fnWord) then function rounds deeper
  else if ← accept (.keyword .returnWord) then returning deeper
  else if ← accept (.symbol .leftBrace) then
    let statements ← block deeper
    pure (.block statements)
  else if ← atAssignment then assignment deeper
  else
    let e ← expression deeper
    pure (.expr e)

/-- Whether no statement follows: the tokens are at an end, or in a block a brace closes it. -/
def atEnd (inBlock : Bool) : Descent Bool := do
  match ← peek? with
  | none => pure true
  | some token => pure (inBlock && token.kind = .symbol .rightBrace)

/-- Statements up to the end of the tokens, or up to a closing brace if `inBlock`; `done` are taken
already (last first). -/
def statements (inBlock : Bool) : Nat → List Stmt → Descent (List Stmt)
  | 0, _ => unfinished
  | more + 1, done => do
    skipSemicolons rounds
    if ← atEnd inBlock then
      pure done.reverse
    else
      let next ← statement rounds deeper
      statements inBlock more (next :: done)

/-- The statements of a block, behind its opening brace, and the closing one. -/
def blockContents : Descent (List Stmt) := do
  let body ← statements rounds deeper true rounds []
  expect (.symbol .rightBrace) "'\x7d' to close block"
  pure body

end

/-- The productions with so many levels of themselves inside. -/
def deeper (rounds : Nat) : Nat → Deeper
  | 0 => ⟨unfinished, unfinished, unfinished⟩
  | levels + 1 =>
    let inside := deeper rounds levels
    ⟨logicOr rounds inside, unary rounds inside, blockContents rounds inside⟩

/-- The statements of a whole text, with `fuel` rounds for each repetition and `fuel` levels. -/
def program (fuel : Nat) : Descent (List Stmt) :=
  statements fuel (deeper fuel fuel) false fuel []

end Descent

/-! ## The productions by name -/

/-- A production. -/
inductive Rule where
  | statement
  | assignment
  | loopControl (k : Keyword) (word : Stmt)
  | conditional
  | loop
  | function
  | functionBody
  | returning
  | body
  | block
  | blockContents
  | expression
  | logicOr
  | logicAnd
  | equality
  | comparison
  | term
  | factor
  | unary
  | call
  | finishCall (callee : Expr)
  | primary

namespace Rule

/-- What the production makes of tokens. -/
def Tree : Rule → Type
  | statement | assignment | loopControl _ _ | conditional | loop | function | returning | body =>
    Stmt
  | functionBody | block | blockContents => List Stmt
  | expression | logicOr | logicAnd | equality | comparison | term | factor | unary | call
  | finishCall _ | primary => Expr

/-- How many tokens of the production were taken before it is entered, and are looked back at: these
three are entered behind their keyword. -/
def entered : Rule → Nat
  | loop | loopControl _ _ | returning => 1
  | _ => 0

/-- How many tokens the production takes at least from where it is entered. A `break`, a `continue`
and a `return` may end with their keyword. -/
def least : Rule → Nat
  | loopControl _ _ | returning => 0
  | _ => 1

/-- No production is empty. -/
theorem entered_add_least_pos (r : Rule) : 0 < r.entered + r.least := by
  cases r <;> simp [entered, least]

/-- The production as a part of the descent, with `fuel` rounds for each repetition and `fuel`
levels. -/
def descend (fuel : Nat) : (r : Rule) → Descent r.Tree
  | statement => Descent.statement fuel (Descent.deeper fuel fuel)
  | assignment => Descent.assignment (Descent.deeper fuel fuel)
  | loopControl k word => Descent.loopControl k word
  | conditional => Descent.conditional (Descent.deeper fuel fuel)
  | loop => Descent.loop (Descent.deeper fuel fuel)
  | function => Descent.function fuel (Descent.deeper fuel fuel)
  | functionBody => Descent.functionBody (Descent.deeper fuel fuel)
  | returning => Descent.returning (Descent.deeper fuel fuel)
  | body => Descent.body (Descent.deeper fuel fuel)
  | block => Descent.block (Descent.deeper fuel fuel)
  | blockContents => Descent.blockContents fuel (Descent.deeper fuel fuel)
  | expression => Descent.expression (Descent.deeper fuel fuel)
  | logicOr => Descent.logicOr fuel (Descent.deeper fuel fuel)
  | logicAnd => Descent.logicAnd fuel (Descent.deeper fuel fuel)
  | equality => Descent.equality fuel (Descent.deeper fuel fuel)
  | comparison => Descent.comparison fuel (Descent.deeper fuel fuel)
  | term => Descent.term fuel (Descent.deeper fuel fuel)
  | factor => Descent.factor fuel (Descent.deeper fuel fuel)
  | unary => Descent.unary fuel (Descent.deeper fuel fuel)
  | call => Descent.call fuel (Descent.deeper fuel fuel)
  | finishCall callee => Descent.finishCall fuel (Descent.deeper fuel fuel) callee
  | primary => Descent.primary (Descent.deeper fuel fuel)

end Rule

end TwinScript
