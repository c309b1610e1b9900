import TwinScript.CommandLine

/-!
# The program

Reads what a request needs, answers it and writes the answer.
-/

namespace TwinScript

/-- The file error that the system reports by a number, which may come with a minus sign, with its
own words for it. -/
def fileErrorOfCode (signedCode : UInt32) (words : String) : FileError :=
  let code := signedCode.toInt32.toInt.natAbs
  if code = 2 then .notFound
  else if code = 20 then .notDirectory
  else if code = 21 then .isDirectory
  else if code = 36 then .nameTooLong
  else .other (words ++ " (os error " ++ toString code ++ ")")

/-- The file error that stands for an error of the system. -/
def fileErrorOf : IO.Error → FileError
  | .noFileOrDirectory _ code words => fileErrorOfCode code words
  | .inappropriateType _ code words => fileErrorOfCode code words
  | .permissionDenied _ code words => fileErrorOfCode code words
  | .invalidArgument _ code words => fileErrorOfCode code words
  | .otherError code words => fileErrorOfCode code words
  | e => .other (toString e)

/-- The contents of the file at `path`. -/
def readContents (path : String) : IO (Except FileError ByteArray) := do
  try
    pure (.ok (← IO.FS.readBinFile path))
  catch e =>
    pure (.error (fileErrorOf e))

/-- Everything on standard input. -/
partial def readInput (stream : IO.FS.Stream) (read : ByteArray) : IO ByteArray := do
  let bytes ← stream.read 65536
  if bytes.isEmpty then pure read else readInput stream (read ++ bytes)

/-- The answer to a request, with the file or the input that it needs. -/
def answerRequest (request? : Option Request) : IO (Option Report) := do
  match request? with
  | some (.file path limit?) => pure (Report.ofFile path (← readContents path) limit?)
  | some (.session limit?) =>
    pure (Report.ofSession (← readInput (← IO.getStdin) .empty) limit?)
  | request? => pure (Report.answer (fun _ => .error .notFound) .empty request?)

end TwinScript

open TwinScript in
/-- Runs the program with the given arguments. -/
def main (args : List String) : IO UInt32 := do
  match ← answerRequest (Request.ofArguments? args) with
  | none => pure 1
  | some report =>
    let out ← IO.getStdout
    out.write report.stdout
    out.flush
    IO.eprint report.stderr
    pure report.code.toUInt32
