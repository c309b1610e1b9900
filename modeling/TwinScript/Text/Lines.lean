/-!
# Lines of a text

A line ends at a newline, which may follow one carriage return; both belong to the line's end and
not to the line. A text that ends with a newline has no further, empty line after it.
-/

namespace TwinScript

/-- A finished line, given backwards: without the carriage return that stood before its newline. -/
def finishedLine : List Char → String
  | '\r' :: line => String.ofList line.reverse
  | line => String.ofList line.reverse

/-- Reads on with the lines `done` (last first) and the characters of the present line (last
first) behind it. -/
def linesFrom (done : List String) (line : List Char) : List Char → List String
  | [] => (if line.isEmpty then done else String.ofList line.reverse :: done).reverse
  | '\n' :: rest => linesFrom (finishedLine line :: done) [] rest
  | c :: rest => linesFrom done (c :: line) rest

/-- The lines of a text. -/
def lines (text : String) : List String :=
  linesFrom [] [] text.toList

end TwinScript
