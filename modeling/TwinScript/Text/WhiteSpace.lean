import TwinScript.Text.CodePoints

/-!
# White space

The code points with the Unicode property `White_Space`, and cutting them off both ends of a text.
This is the class that decides whether a fragment typed into a session is blank; a program's own
blanks are only four of these characters (`isBlank`, in the scanner).
-/

namespace TwinScript

/-- The code points with the property `White_Space`. -/
def whiteSpaceCodePoints : CodePoints :=
  [(0x9, 0xd), (0x20, 0x20), (0x85, 0x85), (0xa0, 0xa0), (0x1680, 0x1680), (0x2000, 0x200a),
   (0x2028, 0x2029), (0x202f, 0x202f), (0x205f, 0x205f), (0x3000, 0x3000)]

/-- Whether `c` is white space. -/
def isWhiteSpace (c : Char) : Bool :=
  whiteSpaceCodePoints.contains c

/-- The text without the white space at its two ends. -/
def trimWhiteSpace (text : String) : String :=
  let fromFirst := text.toList.dropWhile isWhiteSpace
  String.ofList (fromFirst.reverse.dropWhile isWhiteSpace).reverse

end TwinScript
