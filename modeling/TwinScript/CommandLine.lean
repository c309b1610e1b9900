import TwinScript.Session.Basic

/-!
# The command line

What the arguments ask for, and what the answer to it is, as data: an exit code and two outputs.
Arguments are read from left to right, and the first that is at fault decides. The two options may
stand before the command and behind it, once on either side.
-/

namespace TwinScript

/-! ## Arguments -/

/-- What the arguments ask for. -/
inductive Request where
  /-- Show the version. -/
  | version
  /-- Show how the program is used. -/
  | help
  /-- Run the file with this path. -/
  | file (path : String) (limit? : Option Nat)
  /-- Run what is typed as a session. -/
  | session (limit? : Option Nat)
  deriving DecidableEq, Inhabited

/-- The options on one side of the command. -/
structure Options where
  /-- The step limit. -/
  limit? : Option Nat := none
  /-- Whether more about the run was asked for. The answer to a request is the same with it. -/
  verbose : Bool := false
  deriving DecidableEq, Inhabited

/-- What is known of the request behind some of the arguments. -/
structure Reading where
  /-- The options before the command, if the command was read. -/
  outer? : Option Options := none
  /-- The options on this side of the command. -/
  options : Options := {}
  /-- The path, if it was read. -/
  path? : Option String := none
  /-- Whether `--` was read, behind which nothing is an option. -/
  literal : Bool := false
  deriving DecidableEq, Inhabited

/-- The largest step limit: what fits 64 bits without a sign. -/
def maxLimit : Nat := UInt64.size - 1

/-- The step limit that an argument writes: decimal digits, with a plus sign before them or not. -/
def readLimit? (arg : String) : Option Nat :=
  let digits :=
    match arg.toList with
    | '+' :: digits => digits
    | digits => digits
  let n := decimalValue digits
  if digits.isEmpty || !digits.all Char.isDigit || maxLimit < n then none else some n

namespace Reading

/-- Sets the step limit, which must not be set on this side yet. -/
def setLimit? (r : Reading) (arg : String) : Option Reading :=
  match r.options.limit?, readLimit? arg with
  | none, some n => some { r with options := { r.options with limit? := some n } }
  | _, _ => none

/-- Asks for more reports, which must not be asked for on this side yet. -/
def setVerbose? (r : Reading) : Option Reading :=
  if r.options.verbose then none
  else some { r with options := { r.options with verbose := true } }

/-- Reads an argument that is no option: the command, or the path behind it. -/
def positional? (r : Reading) (arg : String) : Option Reading :=
  match r.outer?, r.path? with
  | none, _ =>
    if arg = "run" && !r.literal then some { r with outer? := some r.options, options := {} }
    else none
  | some _, none => if arg.isEmpty then none else some { r with path? := some arg }
  | some _, some _ => none

/-- What was asked for, when all arguments are read. The limit behind the command overrides the one
before it. -/
def request? (r : Reading) : Option Request :=
  match r.outer?, r.path? with
  | none, _ => some (.session r.options.limit?)
  | some outer, some path => some (.file path (r.options.limit? <|> outer.limit?))
  | some _, none => none

end Reading

/-- Whether an argument is meant as an option. A dash alone is not. -/
def isOption (arg : String) : Bool :=
  match arg.toList with
  | '-' :: _ :: _ => true
  | _ => false

/-- What reading options comes to: go on, or answer at once. -/
inductive Progress where
  | goOn (r : Reading)
  | answer (request : Request)

/-- Reads the letters of short options that are written together. -/
def readLetters (r : Reading) : List Char → Option Progress
  | [] => some (.goOn r)
  | 'v' :: letters => r.setVerbose?.bind (readLetters · letters)
  | 'V' :: _ => if r.outer?.isNone then some (.answer .version) else none
  | 'h' :: _ => some (.answer .help)
  | _ => none

/-- Reads a single option that takes no further argument. -/
def readOption (r : Reading) (arg : String) : Option Progress :=
  if arg = "--verbose" then r.setVerbose?.map .goOn
  else if arg = "--version" then
    if r.outer?.isNone then some (.answer .version) else none
  else if arg = "--help" then some (.answer .help)
  else
    match arg.toList with
    | '-' :: '-' :: rest =>
      match "max-steps=".toList.isPrefixOf? rest with
      | some value => (r.setLimit? (String.ofList value)).map .goOn
      | none => none
    | _ :: letters => readLetters r letters
    | [] => none

/-- The request that the remaining arguments complete; `none` if they are used wrongly. -/
def readArguments (r : Reading) : List String → Option Request
  | [] => r.request?
  | arg :: rest =>
    if r.literal || !isOption arg then
      if arg = "help" && !r.literal && r.outer?.isNone then
        if rest = [] || rest = ["run"] || rest = ["help"] then some .help else none
      else (r.positional? arg).bind (readArguments · rest)
    else if arg = "--" then readArguments { r with literal := true } rest
    else if arg = "--max-steps" then
      match rest with
      | [] => none
      | value :: rest =>
        if isOption value then none
        else (r.setLimit? value).bind (readArguments · rest)
    else
      match readOption r arg with
      | none => none
      | some (.answer request) => some request
      | some (.goOn r) => readArguments r rest

/-- What the arguments of the program ask for; `none` if they are used wrongly. -/
def Request.ofArguments? (args : List String) : Option Request :=
  readArguments {} args

/-! ## Answers -/

/-- How the program ends: its exit code, and what it writes to its two outputs. -/
structure Report where
  /-- The exit code. -/
  code : Nat
  /-- The standard output. -/
  stdout : ByteArray
  /-- The error output. -/
  stderr : String
  deriving Inhabited

namespace Report

/-- The name and the version of the program. -/
def versionText : String := "danfe 0.1.0\n"

/-- How the program is used. -/
def helpText : String :=
  String.join
    ["Usage: danfe [--max-steps <N>] [--verbose] [run <PATH>]\n\n",
     "Runs the file at PATH, or else the script on standard input.\n\n",
     "  --max-steps <N>  Stop after this many loop iterations and function calls\n",
     "  -v, --verbose    Accepted; changes nothing about the run\n",
     "  -h, --help       Show this help\n",
     "  -V, --version    Show the version\n"]

/-- The end of a run that printed `stdout`, with an error or without one. -/
def ofRun (stdout : ByteArray) (error? : Option String) : Report :=
  match error? with
  | none => ⟨0, stdout, ""⟩
  | some message => ⟨1, stdout, String.join ["error: ", message, "\n"]⟩

/-- The end of a program whose arguments are used wrongly. -/
def misuse : Report := ⟨2, .empty, String.join ["error: unexpected arguments\n\n", helpText]⟩

/-- The end of a program that runs a file, whose contents are given. -/
def ofFile (path : String) (contents : Except FileError ByteArray) (limit? : Option Nat) :
    Option Report :=
  ((Module.entry path).runContents contents .unlimited limit?).map fun (answer, it) =>
    match answer with
    | .ok () => ofRun it.sink.written none
    | .error e => ofRun it.sink.written (some e.message)

/-- The end of a program that runs its standard input as a session. -/
def ofSession (input : ByteArray) (limit? : Option Nat) : Option Report :=
  match decodeText input with
  | .error e => some (ofRun .empty (some e.message))
  | .ok text =>
    ((Session.new .unlimited limit?).feedText text).map fun (answer, s) =>
      match answer with
      | .ok () => ofRun s.interpreter.sink.written none
      | .error e => ofRun s.interpreter.sink.written (some e.message)

/-- The answer to a request, with the file that it names and the standard input as they are read
where they are needed. -/
def answer (read : String → Except FileError ByteArray) (input : ByteArray) :
    Option Request → Option Report
  | none => some misuse
  | some .version => some ⟨0, versionText.toUTF8, ""⟩
  | some .help => some ⟨0, helpText.toUTF8, ""⟩
  | some (.file path limit?) => ofFile path (read path) limit?
  | some (.session limit?) => ofSession input limit?

end Report

end TwinScript
