import JavaHighlight.Lexeme.Basic
import JavaHighlight.Text.Lines

/-!
# Reading byte by byte

A reader is a place in a source, counted in bytes. It may stand behind the end, where every
byte is zero; a search from there finds nothing and takes it back to the end. Sources are taken
to be shorter than 4 GiB: their size fits into a word of 32 bits, and all of a source is read.
-/

namespace JavaHighlight

/-- A place in a source. -/
structure Reader where
  source : String
  offset : Nat
  deriving DecidableEq, Repr

namespace Reader

/-- The reader at a byte offset. Offsets past the end count as the end. -/
def openAt (source : String) (offset : Nat) : Reader :=
  ⟨source, min offset source.utf8ByteSize⟩

def bytes (source : String) : List UInt8 :=
  source.toList.flatMap String.utf8EncodeChar

def size (r : Reader) : Nat :=
  r.source.utf8ByteSize

def atEnd (r : Reader) : Bool :=
  r.size ≤ r.offset

def remaining (r : Reader) : List UInt8 :=
  (bytes r.source).drop r.offset

/-- The byte `n` places further on; zero behind the end. -/
def peek (r : Reader) (n : Nat) : UInt8 :=
  (r.remaining[n]?).getD 0

/-- The byte at the reader; zero behind the end. -/
def current (r : Reader) : UInt8 :=
  r.peek 0

/-- Move on by `n` bytes, perhaps behind the end. -/
def advance (r : Reader) (n : Nat) : Reader :=
  { r with offset := r.offset + n }

/-- The text between two offsets, of which the second counts at most as the end. Empty if the
range is reversed or cuts a character. -/
def slice (r : Reader) (start stop : Nat) : String :=
  (Text.slice? r.source start (min stop r.size)).getD ""

/-! ## Characters -/

/-- The number of bytes of a character by its first byte. A byte that starts no character
counts as one. -/
def charWidth (byte : UInt8) : Nat :=
  if 0xC0 ≤ byte && byte ≤ 0xDF then 2
  else if 0xE0 ≤ byte && byte ≤ 0xEF then 3
  else if 0xF0 ≤ byte && byte ≤ 0xF7 then 4
  else 1

def advanceChar (r : Reader) : Reader :=
  r.advance (charWidth r.current)

/-- The character at the reader; none at the end and inside a character. -/
def currentChar? (r : Reader) : Option Char :=
  match Text.dropBytes r.offset r.source.toList with
  | (0, rest) => rest.head?
  | _ => none

/-! ## Searches -/

/-- Move to the first byte that satisfies `p`, or to the end. -/
def seek (p : UInt8 → Bool) (r : Reader) : Reader :=
  match r.remaining.findIdx? p with
  | some n => r.advance n
  | none => { r with offset := r.size }

/-- Move over bytes that satisfy `p`. The zero behind the end is taken not to. -/
def skipWhile (p : UInt8 → Bool) (r : Reader) : Reader :=
  r.advance (r.remaining.takeWhile p).length

/-- Whether a byte is the given character of ASCII. -/
def isByte (c : Char) (byte : UInt8) : Bool :=
  byte.toNat = c.toNat

def isLineEndByte (byte : UInt8) : Bool :=
  isByte '\n' byte || isByte '\r' byte

def toLineEnd (r : Reader) : Reader :=
  r.seek isLineEndByte

/-- Move to the next byte that matters inside a literal with the given quote: the quote, a
backslash or a line terminator. -/
def toQuoteDelimiter (quote : UInt8) (r : Reader) : Reader :=
  r.seek fun byte => byte = quote || isByte '\\' byte || isLineEndByte byte

/-- Move to the next byte that matters inside a text block: a quote or a backslash. -/
def toTextBlockDelimiter (r : Reader) : Reader :=
  r.seek fun byte => isByte '"' byte || isByte '\\' byte

/-- Where `needle` first occurs in a list of bytes. -/
def find? (needle : List UInt8) : List UInt8 → Option Nat
  | [] => if needle = [] then some 0 else none
  | byte :: bytes =>
    if needle.isPrefixOf (byte :: bytes) then some 0 else (find? needle bytes).map (· + 1)

/-- Move behind the next occurrence of `needle` and tell whether there is one; if not, move to
the end. -/
def past (needle : List UInt8) (r : Reader) : Bool × Reader :=
  match find? needle r.remaining with
  | some n => (true, r.advance (n + needle.length))
  | none => (false, { r with offset := r.size })

def skipBlanks (r : Reader) : Reader :=
  r.skipWhile fun byte => isBlank (Char.ofNat byte.toNat)

/-! ## Lexemes -/

/-- The lexeme at the reader. Behind the end it is the end of input. -/
def lexeme (r : Reader) : Lexeme :=
  (Lexeme.ofTextFrom r.offset r.source.toList).headD ⟨.endOfInput, []⟩

/-- All lexemes from the reader on, and the reader behind them. -/
def lexemes (r : Reader) : List Lexeme × Reader :=
  let ls := Lexeme.ofTextFrom r.offset r.source.toList
  (ls, r.advance (Lexeme.totalLength ls))

end Reader

end JavaHighlight
