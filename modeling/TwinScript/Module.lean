import TwinScript.FileTree
import TwinScript.Interpreter

/-!
# Modules

A file runs as a module. While it runs, the name `__module__` is bound to the name of the module:
`main` for the file that was started, and for any other the stem of its path. So a file can tell
whether it was started or reached in another way.
-/

namespace TwinScript

/-- The name that is bound to the name of the running module. -/
def moduleVariable : String := "__module__"

/-- The name of the module that was started. -/
def entryName : String := "main"

/-- A file as a part of a program. -/
structure Module where
  /-- The path of the file. -/
  path : String
  /-- Whether the program was started with this file. -/
  isEntry : Bool
  deriving DecidableEq, Inhabited

/-- Why a module did not run to its end. -/
inductive ModuleFault where
  | file (e : FileError)
  | program (e : ProgramError)
  deriving DecidableEq, Inhabited

/-- The message of a fault, which names no file. -/
def ModuleFault.message : ModuleFault → String
  | file e => e.message
  | program e => e.message

/-- Where in the text the fault is, if it has a place. -/
def ModuleFault.pos? : ModuleFault → Option Position
  | file _ => none
  | program e => e.pos?

/-- A fault and the path of the module that has it. -/
structure ModuleError where
  /-- The path of the module. -/
  path : String
  /-- What went wrong. -/
  fault : ModuleFault
  deriving DecidableEq, Inhabited

/-- The message of an error, which begins with the path of its module. -/
def ModuleError.message (e : ModuleError) : String :=
  String.join [e.path, ": ", e.fault.message]

namespace Module

/-- The module of the file that a program is started with. -/
def entry (path : String) : Module := ⟨path, true⟩

/-- The module of any other file. -/
def imported (path : String) : Module := ⟨path, false⟩

/-- The name of a module: `main` for the entry, for all others the stem of the path, or the whole
path where that names no file. -/
def name (m : Module) : String :=
  if m.isEntry then entryName else (Path.fileStem? m.path).getD m.path

/-- Runs the text of a module on an interpreter, with the module's name bound. -/
def runText (m : Module) (text : String) (it : Interpreter) : Ending ModuleError Unit :=
  match (it.defineGlobal moduleVariable (.str m.name)).run text with
  | some (.ok _, it) => some (.ok (), it)
  | some (.error e, it) => some (.error ⟨m.path, .program e⟩, it)
  | none => none

/-- Runs a module whose file has the given contents, or could not be read, on a new interpreter. -/
def runContents (m : Module) (contents : Except FileError ByteArray) (sink : Sink)
    (limit? : Option Nat) : Ending ModuleError Unit :=
  let it := Interpreter.new sink limit?
  match contents.bind decodeText with
  | .ok text => m.runText text it
  | .error e => some (.error ⟨m.path, .file e⟩, it)

end Module

end TwinScript
