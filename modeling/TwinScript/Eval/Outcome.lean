import TwinScript.Eval.Error
import TwinScript.Heap

/-!
# Running programs: states and outcomes

`State` is what a running program can change, and `Outcome` is how a part of it ends: with a result,
with an error, or not within the fuel it was given. Both of the first two leave a state, since a
failed program keeps what it has bound and printed. There is one more, for a run that leaves more
functions than it has entered; no run does. `Eval` is the type of parts of programs, with the
ordinary sequencing: the first part that does not end with a result ends the whole.
-/

namespace TwinScript

/-- What a running program can change, and the limit that it runs under. -/
structure State where
  /-- The frames. -/
  heap : Heap
  /-- Where it prints. -/
  sink : Sink
  /-- How many loop rounds and calls it was charged for. -/
  steps : Nat
  /-- How many it may be charged for; there is no limit if this is `none`. -/
  limit? : Option Nat
  /-- How many functions are running inside each other. -/
  depth : Nat
  deriving Inhabited

/-- How a part of a program ends. -/
inductive Outcome (α : Type) where
  /-- With a result. -/
  | done (result : α) (st : State)
  /-- With an error. -/
  | failed (e : EvalError) (st : State)
  /-- Not at all, as far as the fuel lasted. -/
  | unfinished
  /-- Nowhere: it was to leave a function while none was running. -/
  | crashed

/-- A part of a program. -/
def Eval (α : Type) := State → Outcome α

namespace Eval

/-- Ends with a result at once. -/
@[always_inline, inline]
def result {α : Type} (a : α) : Eval α := fun st => .done a st

/-- Goes on with `next` if `first` ends with a result. -/
@[always_inline, inline]
def andThen {α β : Type} (first : Eval α) (next : α → Eval β) : Eval β := fun st =>
  match first st with
  | .done a st => next a st
  | .failed e st => .failed e st
  | .unfinished => .unfinished
  | .crashed => .crashed

@[always_inline]
instance : Monad Eval where
  pure := result
  bind := andThen

theorem pure_apply {α : Type} (a : α) (st : State) : (pure a : Eval α) st = .done a st := rfl

theorem bind_apply {α β : Type} (first : Eval α) (next : α → Eval β) (st : State) :
    (first >>= next) st =
      match first st with
      | .done a st => next a st
      | .failed e st => .failed e st
      | .unfinished => .unfinished
      | .crashed => .crashed := rfl

instance : LawfulMonad Eval := LawfulMonad.mk' Eval
  (fun x => funext fun st => by
    change (x >>= fun a => pure (id a)) st = x st
    rw [bind_apply]
    cases x st <;> rfl)
  (fun _ _ => rfl)
  (fun x f g => funext fun st => by
    simp only [bind_apply]
    cases x st <;> rfl)

/-- Ends with an error. -/
@[always_inline, inline]
def fail {α : Type} (e : EvalError) : Eval α := fun st => .failed e st

/-- Ends as a computation without effects does. -/
@[always_inline, inline]
def ofExcept {α : Type} : Except EvalError α → Eval α
  | .ok a => result a
  | .error e => fail e

/-- Charges for a loop round or a call at `pos`. -/
def step (pos : Position) : Eval Unit := fun st =>
  let steps := st.steps + 1
  match st.limit? with
  | some limit =>
    if limit < steps then .failed (.stepLimitExceeded pos limit) { st with steps }
    else .done () { st with steps }
  | none => .done () { st with steps }

/-- Enters the body of a function that is called at `pos`. A step that is one too many fails inside
of it. -/
def enterCall (pos : Position) : Eval Unit := fun st =>
  if maxCallDepth ≤ st.depth then .failed (.callDepthExceeded pos) st
  else step pos { st with depth := st.depth + 1 }

/-- Leaves the body of a function. -/
def leaveCall : Eval Unit := fun st =>
  match st.depth with
  | 0 => .crashed
  | depth + 1 => .done () { st with depth }

/-- Goes on with `last` behind `m`, whether that ends with a result or with an error, and ends as
`m` does. -/
def alwaysThen {α : Type} (m : Eval α) (last : Eval Unit) : Eval α := fun st =>
  match m st with
  | .done a mid => andThen last (fun _ => result a) mid
  | .failed e mid => andThen last (fun _ => fail e) mid
  | .unfinished => .unfinished
  | .crashed => .crashed

/-- Does `m` inside a call at `pos`. A call that was entered is left behind `m`, also if that has
failed. -/
def insideCall {α : Type} (pos : Position) (m : Eval α) : Eval α :=
  andThen (enterCall pos) fun _ => alwaysThen m leaveCall

/-- The value of a name that stands at `pos`, seen from the frame `f`. -/
def readName (f : FrameId) (pos : Position) (name : String) : Eval Val := fun st =>
  match st.heap.get? f name with
  | some v => .done v st
  | none => .failed (.unboundName pos name) st

/-- Lets a name stand for `v` where it is bound already, or else in the frame `f`. -/
def writeName (f : FrameId) (name : String) (v : Val) : Eval Unit := fun st =>
  .done () { st with heap := st.heap.bind f name v }

/-- Declares a function in the frame `f`. -/
def declare (f : FrameId) (name : String) (params : List String) (body : List Stmt) :
    Eval Unit := fun st =>
  .done () { st with heap := st.heap.declare f name params body }

/-- Makes a new frame with the parent `f` and the given bindings. -/
def newFrame (f : FrameId) (bindings : Bindings) : Eval FrameId := fun st =>
  let (frame, heap) := st.heap.child f bindings
  .done frame { st with heap }

/-- Prints a line. -/
def printLine (text : String) : Eval Unit := fun st =>
  match st.sink.writeLine text with
  | (none, sink) => .done () { st with sink }
  | (some cause, sink) => .failed (.output cause) { st with sink }

end Eval

end TwinScript
