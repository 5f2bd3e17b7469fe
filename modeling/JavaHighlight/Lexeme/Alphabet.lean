import JavaHighlight.Unicode.Alphabetic
import JavaHighlight.Unicode.Numeric

/-!
# The characters that lexemes are made of
-/

namespace JavaHighlight

/-- A space, a tab, a form feed or a line terminator. -/
def isBlank (c : Char) : Bool :=
  c = ' ' || c = '\t' || c = '\x0c' || c = '\n' || c = '\r'

def isWordStart (c : Char) : Bool :=
  Unicode.isAlphabetic c || c = '_' || c = '$'

def isWordPart (c : Char) : Bool :=
  isWordStart c || Unicode.isNumeric c

theorem isWordPart_of_isWordStart {c : Char} (h : isWordStart c = true) : isWordPart c = true := by
  simp [isWordPart, h]

def isAsciiWordPart (c : Char) : Bool :=
  c.isAlphanum || c = '_' || c = '$'

/-- A decimal digit, or the underscore that separates digits. -/
def isDigitPart (c : Char) : Bool :=
  c.isDigit || c = '_'

/-- A binary digit, or the underscore that separates digits. -/
def isBinaryPart (c : Char) : Bool :=
  c = '0' || c = '1' || c = '_'

/-- A hexadecimal digit, or the underscore that separates digits. -/
def isHexPart (c : Char) : Bool :=
  c.isDigit || ('a' ≤ c && c ≤ 'f') || ('A' ≤ c && c ≤ 'F') || c = '_'

/-- The letter in front of a power of ten. -/
def isDecimalExponentMark (c : Char) : Bool :=
  c = 'e' || c = 'E'

/-- The letter in front of a power of two. -/
def isBinaryExponentMark (c : Char) : Bool :=
  c = 'p' || c = 'P'

/-- The letter behind a number that makes it floating. -/
def isFloatSuffix (c : Char) : Bool :=
  c = 'f' || c = 'F' || c = 'd' || c = 'D'

/-- The letter behind an integer that makes it long. -/
def isLongSuffix (c : Char) : Bool :=
  c = 'l' || c = 'L'

def isSign (c : Char) : Bool :=
  c = '+' || c = '-'

end JavaHighlight
