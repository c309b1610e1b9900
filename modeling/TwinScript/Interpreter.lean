import TwinScript.Eval.Run
import TwinScript.Syntax.Grammar
import TwinScript.Token.Scan

/-!
# Interpreters

An interpreter keeps what survives a program: the frames, the output and the step limit. Programs
run one after the other against the same root frame, and each is charged for its own steps only.

A run takes fuel, since nothing but a step limit forces a loop to end. The answer is `none` where
the fuel did not last; otherwise it is the value or the error, with the interpreter afterwards. A
program that fails keeps what it has bound and printed before.
-/

namespace TwinScript

/-- What survives a program. -/
structure Interpreter where
  /-- The frames. -/
  heap : Heap
  /-- Where programs print. -/
  sink : Sink
  /-- How many loop rounds and calls each program may make. -/
  limit? : Option Nat
  deriving Inhabited

/-- Why a text did not run to its end. -/
inductive ProgramError where
  | scan (e : ScanError)
  | parse (e : ParseError)
  | eval (e : EvalError)
  deriving DecidableEq, Inhabited

/-- Where in the text the error is, if it has a place. -/
def ProgramError.pos? : ProgramError → Option Position
  | scan e => some e.pos
  | parse e => e.pos?
  | eval e => e.pos?

/-- The message of an error, which begins with the stage that found it. -/
def ProgramError.message : ProgramError → String
  | scan e => String.join ["lex error: ", e.message]
  | parse e => String.join ["parse error: ", e.message]
  | eval e => String.join ["runtime error: ", e.message]

/-- How a run ends: a value or an error with the interpreter afterwards, or nothing if its fuel did
not last. -/
abbrev Ending (ε α : Type) := Option (Except ε α × Interpreter)

/-- More fuel than a machine can use up. -/
def ampleFuel : Nat := 0x4000000000000000

/-- The program that a text writes. -/
def readProgram (code : String) : Except ProgramError (List Stmt) :=
  match tokenize code with
  | .error e => .error (.scan e)
  | .ok tokens =>
    match parse tokens with
    | .error e => .error (.parse e)
    | .ok program => .ok program

namespace Interpreter

/-- An interpreter that has run nothing. -/
def new (sink : Sink) (limit? : Option Nat) : Interpreter :=
  ⟨Heap.initial, sink, limit?⟩

/-- The state in which a program starts. -/
def start (it : Interpreter) : State where
  heap := it.heap
  sink := it.sink
  steps := 0
  limit? := it.limit?
  depth := 0

/-- The interpreter after a program that left the state `st`. -/
def resume (it : Interpreter) (st : State) : Interpreter :=
  { it with heap := st.heap, sink := st.sink }

/-- Executes a program. The output is flushed once behind it, also behind a program that failed,
and a flush that fails is the error of the whole. -/
def executeWithin (fuel : Nat) (it : Interpreter) (program : List Stmt) :
    Ending EvalError (Option Val) :=
  let flushed (answer : Except EvalError (Option Val)) (st : State) :=
    match st.sink.flush with
    | none => (answer, it.resume st)
    | some cause => (.error (.output cause), it.resume st)
  match runProgram fuel program it.start with
  | .done value st => some (flushed (.ok value) st)
  | .failed e st => some (flushed (.error e) st)
  | .unfinished => none
  | .crashed => none

/-- Runs the program that a text writes. A text that writes none changes nothing. -/
def runWithin (fuel : Nat) (it : Interpreter) (code : String) :
    Ending ProgramError (Option Val) :=
  match readProgram code with
  | .error e => some (.error e, it)
  | .ok program =>
    match it.executeWithin fuel program with
    | some (.ok value, it) => some (.ok value, it)
    | some (.error e, it) => some (.error (.eval e), it)
    | none => none

/-- Executes a program with ample fuel. -/
def execute (it : Interpreter) (program : List Stmt) : Ending EvalError (Option Val) :=
  it.executeWithin ampleFuel program

/-- Runs the program that a text writes with ample fuel. -/
def run (it : Interpreter) (code : String) : Ending ProgramError (Option Val) :=
  it.runWithin ampleFuel code

/-- What a name stands for in the root frame. -/
def global? (it : Interpreter) (name : String) : Option Val :=
  it.heap.get? Heap.root name

/-- Binds a name in the root frame. -/
def defineGlobal (it : Interpreter) (name : String) (v : Val) : Interpreter :=
  { it with heap := it.heap.define Heap.root name v }

end Interpreter

end TwinScript
