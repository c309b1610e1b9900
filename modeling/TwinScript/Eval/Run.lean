import TwinScript.Eval.Operators
import TwinScript.Eval.Outcome

/-!
# Running programs: expressions and statements

The evaluator follows the shape of the tree. Only two things make it read a part of a program a
second time: the next round of a loop, and the body of a function that is called. These two are
handed to it as the functions `call` and `loop`, and `callWithin` and `loopWithin` provide them by
recursion on fuel. Each charges a step before it goes on, so fuel is spent only where steps are.
-/

namespace TwinScript

/-- How a statement ends that does not fail. -/
inductive Flow where
  /-- The next statement follows. -/
  | normal
  /-- The loop around it ends. -/
  | breaking
  /-- The round of the loop around it ends. -/
  | continuing
  /-- The function around it ends with a value. -/
  | returning (v : Val)
  deriving Inhabited

/-- Calls a closure with arguments, at a position. -/
abbrev CallRule := Closure → List Val → Position → Eval Val

/-- Runs a loop, given by its position, its condition and its body, in a frame. -/
abbrev LoopRule := FrameId → Position → Option Expr → Stmt → Eval Flow

/-! ## Expressions -/

/-- How many arguments a function of the language takes. -/
def Builtin.arity : Builtin → Nat
  | println => 1

/-- Calls a function of the language. -/
def Builtin.call (b : Builtin) (args : List Val) (pos : Position) : Eval Val :=
  match b, args with
  | .println, [v] => do
    Eval.printLine v.text
    pure .nothing
  | b, args => Eval.fail (.wrongArgumentCount pos b.arity args.length)

mutual

/-- Evaluates an expression in the frame `f`. A closure is called only with the number of arguments
that it takes, which is decided before any argument is evaluated; a function of the language
evaluates its arguments first. -/
def Expr.eval (call : CallRule) (f : FrameId) : Expr → Eval Val
  | .literal _ value => pure (Val.ofLiteral value)
  | .var pos name => Eval.readName f pos name
  | .unary pos op operand => do
    let x ← operand.eval call f
    Eval.ofExcept (unaryValue pos op x)
  | .binary pos op left right => do
    let l ← left.eval call f
    if op = .symbol .orOr then
      if l.truthy then pure (.bool true)
      else
        let r ← right.eval call f
        pure (.bool r.truthy)
    else if op = .symbol .andAnd then
      if l.truthy then
        let r ← right.eval call f
        pure (.bool r.truthy)
      else pure (.bool false)
    else
      let r ← right.eval call f
      Eval.ofExcept (binaryValue pos op l r)
  | .call pos callee args => do
    match ← callee.eval call f with
    | .closure c =>
      if args.length = c.params.length then
        let values ← Expr.evalAll call f args
        call c values pos
      else Eval.fail (.wrongArgumentCount pos c.params.length args.length)
    | .builtin b =>
      let values ← Expr.evalAll call f args
      b.call values pos
    | v => Eval.fail (.notCallable pos v.type)

/-- Evaluates expressions from left to right. -/
def Expr.evalAll (call : CallRule) (f : FrameId) : List Expr → Eval (List Val)
  | [] => pure []
  | e :: rest => do
    let v ← e.eval call f
    let vs ← Expr.evalAll call f rest
    pure (v :: vs)

end

/-! ## Statements -/

mutual

/-- Executes a statement in the frame `f`. -/
def Stmt.exec (call : CallRule) (loop : LoopRule) (f : FrameId) : Stmt → Eval Flow
  | .expr e => do
    let _ ← e.eval call f
    pure .normal
  | .assign name value => do
    let v ← value.eval call f
    Eval.writeName f name v
    pure .normal
  | .block body => do
    let frame ← Eval.newFrame f []
    Stmt.execAll call loop frame body
  | .ifThen condition body => do
    let v ← condition.eval call f
    if v.truthy then body.exec call loop f else pure .normal
  | .forLoop pos condition body => loop f pos condition body
  | .breakLoop => pure .breaking
  | .continueLoop => pure .continuing
  | .returnValue none => pure (.returning .nothing)
  | .returnValue (some value) => do
    let v ← value.eval call f
    pure (.returning v)
  | .function name params body => do
    Eval.declare f name params body
    pure .normal

/-- Executes statements in the frame `f`, up to the first that does not end normally. -/
def Stmt.execAll (call : CallRule) (loop : LoopRule) (f : FrameId) : List Stmt → Eval Flow
  | [] => pure .normal
  | s :: rest => do
    match ← s.exec call loop f with
    | .normal => Stmt.execAll call loop f rest
    | flow => pure flow

end

/-! ## Calls and loops -/

/-- What a call makes of the way its body ended. -/
def Flow.callResult : Flow → Eval Val
  | normal => pure .nothing
  | returning v => pure v
  | breaking => Eval.fail (.strayControl .breakWord)
  | continuing => Eval.fail (.strayControl .continueWord)

/-- Whether a loop goes into another round: its condition holds, or it has none. -/
def loopCondition (call : CallRule) (f : FrameId) : Option Expr → Eval Bool
  | none => pure true
  | some condition => do
    let v ← condition.eval call f
    pure v.truthy

mutual

/-- Calls a closure, with fuel for calls and loop rounds inside each other. -/
def callWithin : Nat → CallRule
  | 0, _, _, _ => fun _ => .unfinished
  | fuel + 1, c, args, pos => Eval.insideCall pos (do
    let frame ← Eval.newFrame c.scope (Bindings.ofArguments c.params args)
    let flow ← Stmt.execAll (callWithin fuel) (loopWithin fuel) frame c.body
    flow.callResult)

/-- Runs a loop, with fuel for its rounds. -/
def loopWithin : Nat → LoopRule
  | 0, _, _, _, _ => fun _ => .unfinished
  | fuel + 1, f, pos, condition, body => do
    if ← loopCondition (callWithin fuel) f condition then
      Eval.step pos
      match ← body.exec (callWithin fuel) (loopWithin fuel) f with
      | .breaking => pure .normal
      | .returning v => pure (.returning v)
      | _ => loopWithin fuel f pos condition body
    else pure .normal

end

/-! ## Programs -/

/-- Executes the statements of a program in the root frame. The value of the program is that of its
last statement, if that is an expression. -/
def runProgram (fuel : Nat) : List Stmt → Eval (Option Val)
  | [] => pure none
  | [.expr e] => do
    let v ← e.eval (callWithin fuel) Heap.root
    pure (some v)
  | s :: rest => do
    match ← s.exec (callWithin fuel) (loopWithin fuel) Heap.root with
    | .normal => runProgram fuel rest
    | .breaking => Eval.fail (.strayControl .breakWord)
    | .continuing => Eval.fail (.strayControl .continueWord)
    | .returning _ => Eval.fail (.strayControl .returnWord)

end TwinScript
