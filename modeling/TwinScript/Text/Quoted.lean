import TwinScript.Text.DefaultIgnorable
import TwinScript.Text.GraphemeExtend
import TwinScript.Text.Unprintable

/-!
# Quoted text

How a text is shown as a literal: between double quotes, with an escape for each character that
would be misread or would not be seen. `quoteChar` is the rule for one character and `quoted` its
extension to a whole text.
-/

namespace TwinScript

/-- The escape that names a character by its code point, in lower-case hexadecimal. -/
def codePointEscape (c : Char) : List Char :=
  '\\' :: 'u' :: '\x7b' :: (Nat.toDigits 16 c.toNat ++ ['\x7d'])

/-- The two halfwidth sound marks. They are the only letters that extend the character before them,
and unlike all others that do they take a place of their own. -/
def isSoundMark (c : Char) : Bool :=
  c == '\uff9e' || c == '\uff9f'

/-- Whether `c` is not seen on its own: it has no picture, is ignored, or is drawn on the character
before it. -/
def isHidden (c : Char) : Bool :=
  isUnprintable c || isDefaultIgnorable c || (isGraphemeExtend c && !isSoundMark c)

/-- One character inside double quotes. The quote itself and the backslash are escaped, four
controls have a letter, and what is not seen on its own is named by its code point. -/
def quoteChar (c : Char) : List Char :=
  if c = '"' then ['\\', '"']
  else if c = '\\' then ['\\', '\\']
  else if c = '\n' then ['\\', 'n']
  else if c = '\r' then ['\\', 'r']
  else if c = '\t' then ['\\', 't']
  else if c = '\x00' then ['\\', '0']
  else if isHidden c then codePointEscape c
  else [c]

/-- The text as a literal between double quotes. -/
def quoted (text : String) : String :=
  String.ofList ('"' :: (text.toList.flatMap quoteChar ++ ['"']))

end TwinScript
