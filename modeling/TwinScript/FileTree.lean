import TwinScript.Path

/-!
# Files

Reading a file by its path, and why that fails. `FileTree` is a working directory as data: the
files in it and below it, each under the parts of its path. A directory exists as far as a file
lies in it.
-/

namespace TwinScript

/-- Why a file cannot be read as text. -/
inductive FileError where
  | notFound
  | isDirectory
  | notDirectory
  | nameTooLong
  | zeroInName
  | notText
  | other (message : String)
  deriving DecidableEq, Inhabited

/-- The message of a file error. -/
def FileError.message : FileError → String
  | notFound => "No such file or directory (os error 2)"
  | isDirectory => "Is a directory (os error 21)"
  | notDirectory => "Not a directory (os error 20)"
  | nameTooLong => "File name too long (os error 36)"
  | zeroInName => "file name contained an unexpected NUL byte"
  | notText => "stream did not contain valid UTF-8"
  | other message => message

/-- The text that some bytes encode. -/
def decodeText (bytes : ByteArray) : Except FileError String :=
  match String.fromUTF8? bytes with
  | some text => .ok text
  | none => .error .notText

/-- The files in a working directory and below it. -/
structure FileTree where
  /-- Each file with the parts of its path. -/
  files : List (List String × ByteArray)
  deriving Inhabited

namespace FileTree

/-- The longest path that can be looked up, in bytes. -/
def maxPathSize : Nat := 4095

/-- The longest part of a path that can be looked up, in bytes. -/
def maxNameSize : Nat := 255

/-- Where a path leads. -/
inductive Place where
  /-- The directory with these parts (last first). -/
  | directory (parts : List String)
  /-- A directory around the working directory, so many levels up. -/
  | above (levels : Nat)
  /-- A file. -/
  | file (contents : ByteArray)

/-- What has the path `parts` (last first). -/
def find? (t : FileTree) (parts : List String) : Option Place :=
  let path := parts.reverse
  match t.files.find? (·.1 = path) with
  | some (_, contents) => some (.file contents)
  | none => if t.files.any (path.isPrefixOf ·.1) then some (.directory parts) else none

/-- Goes from a place to the one that is called `part` there. -/
def enter (t : FileTree) (place : Place) (part : String) : Except FileError Place :=
  match place, part with
  | .file _, _ => .error .notDirectory
  | place, "." => .ok place
  | .directory (_ :: outer), ".." => .ok (.directory outer)
  | .directory [], ".." => .ok (.above 1)
  | .above levels, ".." => .ok (.above (levels + 1))
  | .above _, part => .error (if maxNameSize < part.utf8ByteSize then .nameTooLong else .notFound)
  | .directory parts, part =>
    if maxNameSize < part.utf8ByteSize then .error .nameTooLong
    else
      match t.find? (part :: parts) with
      | some place => .ok place
      | none => .error .notFound

/-- The bytes of the file with the given path. A path that ends in a slash names a directory. -/
def read (t : FileTree) (path : String) : Except FileError ByteArray := do
  if path.toList.contains '\x00' then throw .zeroInName
  if path.isEmpty then throw .notFound
  if maxPathSize < path.utf8ByteSize then throw .nameTooLong
  let start := if Path.isAbsolute path then .above 1 else .directory []
  match ← (Path.steps path).foldlM t.enter start with
  | .file contents => if Path.namesDirectory path then throw .notDirectory else pure contents
  | _ => throw .isDirectory

end FileTree

end TwinScript
