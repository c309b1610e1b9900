/-!
# Output

A sink collects what a program prints. It may have room for a limited number of bytes over its
life, and its flush may fail. Of other ways in which writing fails a run would see no more: the first
write that fails ends it, and some capacity makes any given line the first that is not taken, with
any part of it taken before (`Interpreter.exists_capacity`).
-/

namespace TwinScript

/-- Why output was not accepted. -/
inductive SinkError where
  /-- There was no room for all of it. -/
  | full
  /-- What was written could not be passed on. -/
  | flush
  deriving DecidableEq, Inhabited

/-- The message of a sink's error. -/
def SinkError.message : SinkError → String
  | full => "sink full"
  | flush => "flush failed"

/-- Where output goes. -/
structure Sink where
  /-- What was written. -/
  written : ByteArray
  /-- How many bytes may be written in all; there is no limit if this is `none`. -/
  capacity? : Option Nat
  /-- Whether every flush fails. -/
  flushFails : Bool
  deriving Inhabited

namespace Sink

/-- A sink that takes everything. -/
def unlimited : Sink := ⟨.empty, none, false⟩

/-- Writes `text`: the part for which there is room, and an error if that is not all of it. -/
def write (s : Sink) (text : String) : Option SinkError × Sink :=
  let bytes := text.toUTF8
  match s.capacity? with
  | none => (none, { s with written := s.written ++ bytes })
  | some capacity =>
    let room := capacity - s.written.size
    if bytes.size ≤ room then (none, { s with written := s.written ++ bytes })
    else (some .full, { s with written := s.written ++ bytes.extract 0 room })

/-- Writes `text` and a newline. -/
def writeLine (s : Sink) (text : String) : Option SinkError × Sink :=
  s.write (text ++ "\n")

/-- Passes on what was written. -/
def flush (s : Sink) : Option SinkError :=
  if s.flushFails then some .flush else none

end Sink

end TwinScript
