import Parlance.Text.Extending

/-!
# Quoted text

* `Text.escape mark c`       the written form of `c` between two marks `mark`;
* `Text.quoted mark cs`      a text between two marks;
* `Text.quotedString cs`, `Text.quotedChar c`   with double and single quotation marks.

Tab, the two line ends, NUL, the backslash and the mark itself have escapes of two characters; a
character that is not printable or extends the one before it is written by its code point.
-/

namespace Parlance.Text

/-- the code point of `c` in hexadecimal, in braces -/
def codePointEscape (c : Char) : List Char :=
  ['\\', 'u', '\x7b'] ++ Nat.toDigits 16 c.toNat ++ ['\x7d']

/-- the written form of `c` between two marks `mark` -/
def escape (mark c : Char) : List Char :=
  if c == '\n' then ['\\', 'n']
  else if c == '\t' then ['\\', 't']
  else if c == '\r' then ['\\', 'r']
  else if c == '\x00' then ['\\', '0']
  else if c == '\\' then ['\\', '\\']
  else if c == mark then ['\\', mark]
  else if isPrintable c && !isExtending c then [c]
  else codePointEscape c

def quoted (mark : Char) (cs : List Char) : List Char :=
  mark :: (cs.flatMap (escape mark) ++ [mark])

/-- a text between double quotation marks -/
def quotedString (cs : List Char) : List Char := quoted '"' cs

/-- a character between single quotation marks -/
def quotedChar (c : Char) : List Char := quoted '\'' [c]

end Parlance.Text
