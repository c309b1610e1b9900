import TwinScript.Syntax.Basic
import TwinScript.Syntax.ParseError

/-!
# The grammar

Recursive descent over a list of tokens. Three decisions shape it.

* **Layout.** A program has no terminators, so `+`, `-` and a call's parenthesis go on with an
  expression only on the line where it stands. `marks` reduces lines to the one thing this needs:
  whether a token is on the line of the token before it. The grammar looks at nothing else of a
  position.
* **Nesting.** The productions that can contain themselves are reached through an `Inner`, the
  grammar one level further in, and `grammarWithin room` is the grammar that has `room` levels left.
  So the recursion is structural, and the limit on nesting is its ordinary base case.
* **Repetition.** Every repetition takes a token a round, so the number of all tokens bounds the
  `rounds` of each.
-/

namespace TwinScript

/-! ## Layout -/

/-- A token, and whether it is on the line of the token before it. -/
structure Mark where
  /-- The token. -/
  token : Token
  /-- There is a token before it, and it is on the same line. -/
  joined : Bool
  deriving DecidableEq, Inhabited

/-- Marks the tokens that follow the token `previous`. -/
def marksAfter (previous : Token) : List Token → List Mark
  | [] => []
  | token :: rest =>
    ⟨token, decide (token.pos.line = previous.pos.line)⟩ :: marksAfter token rest

/-- Marks all tokens of a text. -/
def marks : List Token → List Mark
  | [] => []
  | token :: rest => ⟨token, false⟩ :: marksAfter token rest

/-- The symbols that go on with an expression only on the line where it stands. Each of them can
also open a statement. -/
def Symbol.staysOnLine : Symbol → Bool
  | plus => true
  | minus => true
  | leftParen => true
  | _ => false

/-! ## Reading tokens -/

/-- Reads a part of a program off a list of tokens. -/
abbrev Parser := StateT (List Mark) (Except ParseError)

/-- The token that is read next. -/
def upcoming? (rest : List Mark) : Option Token :=
  rest.head?.map (·.token)

/-- Whether the symbol `s` is read next. -/
def nextIs (s : Symbol) (rest : List Mark) : Bool :=
  (upcoming? rest).any (·.kind = .symbol s)

/-- Fails at the token that is read next. -/
def failNext {α : Type} (fault : ParseFault) : Parser α := fun rest =>
  .error ⟨fault, upcoming? rest⟩

/-- Reads the symbol `s` if it comes next, and says whether it did. -/
def accept (s : Symbol) : Parser Bool := fun rest =>
  if nextIs s rest then .ok (true, rest.tail) else .ok (false, rest)

/-- Reads the symbol `s`, which has to come next. -/
def expect (s : Symbol) (what : String) : Parser Unit := fun rest =>
  if nextIs s rest then .ok ((), rest.tail) else failNext (.expected what) rest

/-- Reads a name. -/
def identifier : Parser String := fun rest =>
  match rest with
  | ⟨⟨.identifier name, _, _⟩, _⟩ :: rest => .ok (name, rest)
  | _ => failNext (.expected "identifier") rest

/-- Whether the token is one of `symbols`. -/
def Mark.isOneOf (symbols : List Symbol) (m : Mark) : Bool :=
  match m.token.kind with
  | .symbol s => symbols.contains s
  | _ => false

/-- Whether the token is one of `symbols`, and stands where it may go on with the expression
before it. -/
def Mark.continuesWith (symbols : List Symbol) (m : Mark) : Bool :=
  match m.token.kind with
  | .symbol s => symbols.contains s && (m.joined || !s.staysOnLine)
  | _ => false

/-- Reads the next token if `wanted` holds of it. -/
def acceptIf (wanted : Mark → Bool) : Parser (Option Token) := fun rest =>
  match rest with
  | [] => .ok (none, rest)
  | m :: behind => if wanted m then .ok (some m.token, behind) else .ok (none, rest)

/-- Reads `item` again and again, each after a comma; `items` are read already (last first). -/
def afterCommas {α : Type} (item : Parser α) : Nat → List α → Parser (List α)
  | 0, items => pure items.reverse
  | rounds + 1, items => do
    if ← accept .comma then
      let next ← item
      afterCommas item rounds (next :: items)
    else
      pure items.reverse

/-- Reads items with commas between them up to the closing parenthesis, which comes at once if
there are none. -/
def commaSeparated {α : Type} (rounds : Nat) (item : Parser α) (what : String) :
    Parser (List α) := do
  if ← accept .rightParen then
    pure []
  else
    let first ← item
    let items ← afterCommas item rounds [first]
    expect .rightParen what
    pure items

/-! ## Productions -/

/-- What surrounds a statement, as far as the statement has to know. -/
structure Context where
  /-- A loop of the same function is around it. -/
  inLoop : Bool
  /-- A function is around it. -/
  inFunction : Bool
  deriving DecidableEq, Inhabited

/-- The productions that are one level further in. -/
structure Inner where
  /-- An expression inside another production. -/
  expression : Parser Expr
  /-- The operand of a prefix operator. -/
  operand : Parser Expr
  /-- The statements of a block, behind its opening brace, and the closing one. -/
  block : Context → Parser (List Stmt)

/-- The binary operators, level by level from the loosest to the tightest. -/
def operatorLevels : List (List Symbol) :=
  [[.orOr],
   [.andAnd],
   [.bangEqual, .equalEqual],
   [.greater, .greaterEqual, .less, .lessEqual],
   [.plus, .minus],
   [.slash, .star, .percent]]

/-- The value that a single token writes down, if it writes one. -/
def Literal.ofKind? : Token.Kind → Option Literal
  | .keyword .trueWord => some (.bool true)
  | .keyword .falseWord => some (.bool false)
  | .keyword .noneWord => some .nothing
  | .keyword .printlnWord => some (.builtin .println)
  | .integer n => some (.int n)
  | .string s => some (.str s)
  | _ => none

section

variable (rounds : Nat) (inner : Inner)

/-- An expression in parentheses, behind the opening one. -/
def parenthesized : Parser Expr := do
  let e ← inner.expression
  expect .rightParen "')'"
  pure e

/-- A literal, a name, or an expression in parentheses. -/
def primary : Parser Expr := fun rest =>
  match rest with
  | [] => failNext .unexpectedToken rest
  | ⟨token, _⟩ :: behind =>
    match Literal.ofKind? token.kind, token.kind with
    | some value, _ => .ok (.literal token.pos value, behind)
    | none, .identifier name => .ok (.var token.pos name, behind)
    | none, .symbol .leftParen => parenthesized inner behind
    | none, _ => failNext .unexpectedToken rest

/-- The calls that follow the expression `callee`. -/
def callsOn : Nat → Expr → Parser Expr
  | 0, callee => pure callee
  | more + 1, callee => do
    match ← acceptIf (Mark.continuesWith [.leftParen]) with
    | none => pure callee
    | some _ =>
      let args ← commaSeparated rounds inner.expression "')' after arguments"
      callsOn more (.call callee.pos callee args)

/-- A primary expression and the calls on it. -/
def call : Parser Expr := do
  let callee ← primary inner
  callsOn rounds inner rounds callee

/-- A call, or a prefix operator and its operand. -/
def unary : Parser Expr := do
  match ← acceptIf (Mark.isOneOf [.bang, .minus]) with
  | none => call rounds inner
  | some op =>
    let operand ← inner.operand
    pure (.unary op.pos op.kind operand)

end

/-- The operators of one level that follow `left`, grouped from the left. -/
def operatorsOn (operators : List Symbol) (operand : Parser Expr) : Nat → Expr → Parser Expr
  | 0, left => pure left
  | more + 1, left => do
    match ← acceptIf (Mark.continuesWith operators) with
    | none => pure left
    | some op =>
      let right ← operand
      operatorsOn operators operand more (.binary op.pos op.kind left right)

/-- An expression of the given levels of operators over operands. -/
def binary (rounds : Nat) (operand : Parser Expr) : List (List Symbol) → Parser Expr
  | [] => operand
  | operators :: tighter => do
    let left ← binary rounds operand tighter
    operatorsOn operators (binary rounds operand tighter) rounds left

section

variable (rounds : Nat) (inner : Inner)

/-- An expression. -/
def expression : Parser Expr :=
  binary rounds (unary rounds inner) operatorLevels

/-- The block that is the body of a conditional or a loop. -/
def body (ctx : Context) : Parser Stmt := do
  expect .leftBrace "'\x7b'"
  let statements ← inner.block ctx
  pure (.block statements)

/-- A conditional, behind its keyword. -/
def conditional (ctx : Context) : Parser Stmt := do
  let condition ← inner.expression
  let body ← body inner ctx
  pure (.ifThen condition body)

/-- A loop, behind its keyword, which stands at `pos`. -/
def loop (ctx : Context) (pos : Position) : Parser Stmt := do
  let bare := nextIs .leftBrace (← get)
  let condition ← if bare then pure none else some <$> inner.expression
  let body ← body inner { ctx with inLoop := true }
  pure (.forLoop pos condition body)

/-- A statement of one reserved word that needs a loop around it. -/
def loopControl (ctx : Context) (token : Token) (k : Keyword) (statement : Stmt) : Parser Stmt :=
  if ctx.inLoop then pure statement
  else throw ⟨.loopControlOutsideLoop k, some token⟩

/-- A function, behind its keyword. Loops around it do not extend into its body. -/
def function : Parser Stmt := do
  let name ← identifier
  expect .leftParen "'(' after function name"
  let params ← commaSeparated rounds identifier "')' after parameters"
  expect .leftBrace "'\x7b' before function body"
  let body ← inner.block ⟨false, true⟩
  pure (.function name params body)

/-- Whether a value follows `return`: something does on its line, and it is neither the end of the
block nor of the statement. -/
def returnsValue (rest : List Mark) : Bool :=
  rest.head?.any (·.joined) && !nextIs .rightBrace rest && !nextIs .semicolon rest

/-- A `return`, behind its keyword `token`. -/
def returning (ctx : Context) (token : Token) : Parser Stmt := do
  if !ctx.inFunction then
    throw ⟨.returnOutsideFunction, some token⟩
  else if returnsValue (← get) then
    let value ← inner.expression
    pure (.returnValue (some value))
  else
    pure (.returnValue none)

/-- An expression as a statement. -/
def bareExpression : Parser Stmt := do
  let e ← inner.expression
  pure (.expr e)

/-- The rest of an assignment, behind its name and sign. -/
def assignment (name : String) : Parser Stmt := do
  let value ← inner.expression
  pure (.assign name value)

/-- A block as a statement, behind its opening brace. -/
def bareBlock (ctx : Context) : Parser Stmt := do
  let statements ← inner.block ctx
  pure (.block statements)

/-- A statement. Its first token decides which, except that a name needs a second one to tell an
assignment from an expression. -/
def statement (ctx : Context) : Parser Stmt := fun rest =>
  match rest with
  | [] => bareExpression inner rest
  | ⟨token, _⟩ :: behind =>
    match token.kind with
    | .keyword .ifWord => conditional inner ctx behind
    | .keyword .forWord => loop inner ctx token.pos behind
    | .keyword .breakWord => loopControl ctx token .breakWord .breakLoop behind
    | .keyword .continueWord => loopControl ctx token .continueWord .continueLoop behind
    | .keyword .fnWord => function rounds inner behind
    | .keyword .returnWord => returning inner ctx token behind
    | .symbol .leftBrace => bareBlock inner ctx behind
    | .identifier name =>
      if nextIs .equal behind then assignment inner name behind.tail
      else bareExpression inner rest
    | _ => bareExpression inner rest

/-- The tokens behind the semicolons that come next. -/
def dropSemicolons (rest : List Mark) : List Mark :=
  rest.dropWhile (·.token.kind = .symbol .semicolon)

/-- Statements up to the end of the text, or up to a closing brace if `inBlock`; `done` are read
already (last first). -/
def statements (ctx : Context) (inBlock : Bool) : Nat → List Stmt → Parser (List Stmt)
  | 0, done => pure done.reverse
  | more + 1, done => do
    modify dropSemicolons
    let rest ← get
    if rest.isEmpty || (inBlock && nextIs .rightBrace rest) then
      pure done.reverse
    else
      let next ← statement rounds inner ctx
      statements ctx inBlock more (next :: done)

/-- The statements of a block, behind its opening brace, and the closing one. -/
def block (ctx : Context) : Parser (List Stmt) := do
  let body ← statements rounds inner ctx true rounds []
  expect .rightBrace "'\x7d' to close block"
  pure body

/-- The statements of a whole text. -/
def program : Parser (List Stmt) :=
  statements rounds inner ⟨false, false⟩ false rounds []

end

/-! ## The levels of the grammar -/

/-- No production fits in. -/
def Inner.full : Inner where
  expression := failNext .nestingTooDeep
  operand := failNext .nestingTooDeep
  block _ := failNext .nestingTooDeep

/-- The grammar with `room` levels of nesting left. -/
def grammarWithin (rounds : Nat) : Nat → Inner
  | 0 => .full
  | room + 1 =>
    let inner := grammarWithin rounds room
    { expression := expression rounds inner
      operand := unary rounds inner
      block := block rounds inner }

/-- The program that a list of tokens writes, if `room` levels of nesting are allowed. -/
def parseWithin (room : Nat) (tokens : List Token) : Except ParseError (List Stmt) :=
  let rounds := tokens.length
  Prod.fst <$> program rounds (grammarWithin rounds room) (marks tokens)

/-- The program that a list of tokens writes. -/
def parse (tokens : List Token) : Except ParseError (List Stmt) :=
  parseWithin maxNesting tokens

end TwinScript
