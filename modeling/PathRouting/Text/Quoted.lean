import PathRouting.Text.DefaultIgnorable
import PathRouting.Text.GraphemeExtend
import PathRouting.Text.Unprintable

/-!
# Quoted text

A text between quotation marks, on one line and in visible characters. Marks, backslashes
and the common controls have short escapes; a character that is drawn on another one, or
that shows nothing, is written by its code point.

## Main definitions

* `Quoted.standsAlone` — a character that shows, and beside the others
* `Quoted.escape` — how a character is written between the marks
* `quote` — the quoted form of a text
-/

namespace PathRouting.Text

namespace Quoted

/-- The escape of a character by its code point, in the fewest lower-case digits. -/
def codeEscape (c : Char) : List Char :=
  '\\' :: 'u' :: '\x7b' :: Nat.toDigits 16 c.toNat ++ ['\x7d']

/-- Whether a character shows, and is not drawn on the one before it. -/
def standsAlone (c : Char) : Bool :=
  (!isGraphemeExtend c || isHalfwidthSoundMark c) && !isUnprintable c && !isDefaultIgnorable c

/-- How a character is written between quotation marks. -/
def escape (c : Char) : List Char :=
  if c = '\x00' then ['\\', '0']
  else if c = '\t' then ['\\', 't']
  else if c = '\r' then ['\\', 'r']
  else if c = '\n' then ['\\', 'n']
  else if c = '"' then ['\\', '"']
  else if c = '\\' then ['\\', '\\']
  else if standsAlone c then [c]
  else codeEscape c

end Quoted

/-- The quoted form of a text. -/
def quote (text : String) : String :=
  String.ofList ('"' :: text.toList.flatMap Quoted.escape ++ ['"'])

end PathRouting.Text
