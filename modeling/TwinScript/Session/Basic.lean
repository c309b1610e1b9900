import TwinScript.Module
import TwinScript.Session.Fragments
import TwinScript.Text.Lines
import TwinScript.Text.WhiteSpace

/-!
# Sessions

A session runs fragments one after the other on one interpreter and prints the value or the error
of each. A fragment that fails is reported and dropped; what earlier fragments bound stays. The
session itself ends with an error only if its output is not accepted.
-/

namespace TwinScript

/-- What is typed to leave a session. -/
def exitCommand : String := ".exit"

/-- Whether a session goes on. -/
inductive Feed where
  | proceed
  | exit
  deriving DecidableEq, Inhabited

/-- A session. -/
structure Session where
  /-- The interpreter that all fragments share. -/
  interpreter : Interpreter
  deriving Inhabited

namespace Session

/-- A session before its first fragment. It runs as the module that was started. -/
def new (sink : Sink) (limit? : Option Nat) : Session :=
  ⟨(Interpreter.new sink limit?).defineGlobal moduleVariable (.str entryName)⟩

/-- What is printed about the end of a fragment: its value, if that is more than `none`, or its
error. -/
def report : Except ProgramError (Option Val) → Option String
  | .ok none => none
  | .ok (some .nothing) => none
  | .ok (some v) => some v.text
  | .error e => some (String.join ["error: ", e.message])

/-- Prints a line, if there is one, and flushes the output. -/
def print (s : Session) (line? : Option String) : Except SinkError Feed × Session :=
  let (error?, sink) :=
    match line? with
    | none => (none, s.interpreter.sink)
    | some line => s.interpreter.sink.writeLine line
  let s : Session := ⟨{ s.interpreter with sink }⟩
  match error? <|> sink.flush with
  | none => (.ok .proceed, s)
  | some cause => (.error cause, s)

/-- Runs a fragment and prints what there is to say about its end. A blank fragment does nothing,
and the exit command ends the session. -/
def feed (s : Session) (fragment : String) : Option (Except SinkError Feed × Session) :=
  let trimmed := trimWhiteSpace fragment
  if trimmed = exitCommand then some (.ok .exit, s)
  else if trimmed.isEmpty then some (.ok .proceed, s)
  else
    match s.interpreter.run fragment with
    | none => none
    | some (answer, it) => some (print ⟨it⟩ (report answer))

/-- Feeds fragments in order until they run out, one asks to exit, or the output fails. -/
def feedAll (s : Session) : List String → Option (Except SinkError Unit × Session)
  | [] => some (.ok (), s)
  | fragment :: rest =>
    match s.feed fragment with
    | none => none
    | some (.ok .proceed, s) => feedAll s rest
    | some (.ok .exit, s) => some (.ok (), s)
    | some (.error cause, s) => some (.error cause, s)

/-- Feeds the fragments of a whole text. -/
def feedText (s : Session) (text : String) : Option (Except SinkError Unit × Session) :=
  s.feedAll (fragments (lines text))

end Session

end TwinScript
