import JavaHighlight.Text.Bytes

/-!
# Lines and positions

A line ends at a line feed, at a carriage return followed by a line feed, or at a carriage
return alone. The line index of a text lists where its lines start and turns a byte offset
into a line and a column. Texts are taken to be shorter than 4 GiB: no offset and no length
saturates as a word of 32 bits.
-/

namespace JavaHighlight.Text

/-- A line feed or a carriage return. -/
def isLineEnd (c : Char) : Bool :=
  c = '\n' || c = '\r'

/-- Put a character in front of the first line. -/
def consFirst (c : Char) (ls : List (List Char)) : List (List Char) :=
  (c :: ls.headD []) :: ls.tail

/-- The lines of a text, each with its terminator. The last line has none and may be empty. -/
def lines : List Char → List (List Char)
  | [] => [[]]
  | '\r' :: '\n' :: cs => ['\r', '\n'] :: lines cs
  | c :: cs => if isLineEnd c then [c] :: lines cs else consFirst c (lines cs)

theorem flatten_consFirst (c : Char) (ls : List (List Char)) :
    (consFirst c ls).flatten = c :: ls.flatten := by
  cases ls <;> simp [consFirst]

/-- Cutting a text into lines loses nothing. -/
@[simp] theorem flatten_lines (cs : List Char) : (lines cs).flatten = cs := by
  fun_induction lines cs with
  | case1 => rfl
  | case2 cs ih => simp [ih]
  | case3 c cs _ h ih => simp [ih]
  | case4 c cs _ h ih => rw [flatten_consFirst, ih]

/-- The offset at which each of the given consecutive lines starts, the first one at `offset`. -/
def startsFrom (offset : Nat) : List (List Char) → List Nat
  | [] => []
  | l :: ls => offset :: startsFrom (offset + byteSize l) ls

@[simp] theorem length_startsFrom (offset : Nat) (ls : List (List Char)) :
    (startsFrom offset ls).length = ls.length := by
  induction ls generalizing offset with
  | nil => rfl
  | cons l ls ih => simp [startsFrom, ih]

end JavaHighlight.Text

namespace JavaHighlight

/-- A line and a column, both counted from one. Columns count bytes from the line's start. -/
structure Position where
  line : Nat
  column : Nat
  deriving DecidableEq, Repr

/-- Where the lines of a text start, and how many bytes the text has. -/
structure LineIndex where
  starts : List Nat
  size : Nat
  deriving DecidableEq, Repr

namespace LineIndex

def ofText (cs : List Char) : LineIndex :=
  { starts := Text.startsFrom 0 (Text.lines cs), size := Text.byteSize cs }

/-- The position of a byte offset. Offsets past the end count as the end. -/
def position (index : LineIndex) (offset : Nat) : Position :=
  let offset := min offset index.size
  let reached := index.starts.takeWhile (· ≤ offset)
  { line := reached.length, column := offset - reached.getLastD 0 + 1 }

end LineIndex

end JavaHighlight
