import JavaHighlight.Unicode.DefaultIgnorable
import JavaHighlight.Unicode.GraphemeExtend
import JavaHighlight.Unicode.Printable

/-!
# Quoted text

Texts and characters are shown between quotes. A backslash stands in front of the quote and of
a backslash; NUL, tab, carriage return and line feed have letters of their own; a character
that does not show by itself is given by its code point.
-/

namespace JavaHighlight.Text

/-- The halfwidth voiced and semi-voiced sound marks. -/
def isHalfwidthSoundMark (c : Char) : Bool :=
  c = '\uff9e' || c = '\uff9f'

/-- Whether a character attaches to the one in front of it and has no place of its own.
Halfwidth sound marks extend a grapheme but are written in a place of their own. -/
def attaches (c : Char) : Bool :=
  Unicode.extendsGrapheme c && !isHalfwidthSoundMark c

/-- Whether a character shows when it stands by itself. -/
def showsAlone (c : Char) : Bool :=
  Unicode.isPrintable c && !Unicode.isDefaultIgnorable c && !attaches c

/-- A code point in lower case hexadecimal between braces. -/
def codePointEscape (c : Char) : List Char :=
  "\\u\x7b".toList ++ Nat.toDigits 16 c.toNat ++ ['\x7d']

/-- The written form of one character between two `quote` characters. -/
def quotedChar (quote : Char) (c : Char) : List Char :=
  if c = '\x00' then "\\0".toList
  else if c = '\t' then "\\t".toList
  else if c = '\r' then "\\r".toList
  else if c = '\n' then "\\n".toList
  else if c = '\\' || c = quote then ['\\', c]
  else if showsAlone c then [c]
  else codePointEscape c

/-- A text between double quotes. -/
def quoted (cs : List Char) : List Char :=
  '"' :: cs.flatMap (quotedChar '"') ++ ['"']

/-- A character between single quotes. -/
def quotedSingle (c : Char) : List Char :=
  '\'' :: quotedChar '\'' c ++ ['\'']

end JavaHighlight.Text
