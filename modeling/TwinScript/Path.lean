/-!
# Paths

The parts of a path, and the stem of the file that it names.
-/

namespace TwinScript.Path

/-- The stretches of a path between its slashes, also empty ones; `stretch` is the beginning of the
first (last character first). -/
def stretchesFrom (stretch : List Char) : List Char → List (List Char)
  | [] => [stretch.reverse]
  | c :: rest =>
    if c = '/' then stretch.reverse :: stretchesFrom [] rest
    else stretchesFrom (c :: stretch) rest

/-- The stretches of a path between its slashes, also empty ones. -/
def stretches (path : String) : List String :=
  (stretchesFrom [] path.toList).map String.ofList

/-- The steps that a path goes. An empty stretch is none. -/
def steps (path : String) : List String :=
  (stretches path).filter (· != "")

/-- The parts of a path: its steps without those that stay in place. -/
def parts (path : String) : List String :=
  (steps path).filter (· != ".")

/-- The name of the file that a path names: its last part, unless that leads upwards. -/
def fileName? (path : String) : Option String :=
  match (parts path).getLast? with
  | some name => if name = ".." then none else some name
  | none => none

/-- A file name without its extension, which begins at the last dot. A name that begins with its
only dot has no extension. -/
def stem (name : String) : String :=
  let beforeDot := (name.toList.reverse.dropWhile (· != '.')).drop 1
  if beforeDot.isEmpty then name else String.ofList beforeDot.reverse

/-- The stem of the file that a path names. -/
def fileStem? (path : String) : Option String :=
  (fileName? path).map stem

/-- Whether a path ends in a slash, and so cannot name a file. -/
def namesDirectory (path : String) : Bool :=
  path.toList.getLast? == some '/'

/-- Whether a path begins with a slash, and so does not depend on the working directory. -/
def isAbsolute (path : String) : Bool :=
  path.toList.head? == some '/'

end TwinScript.Path
