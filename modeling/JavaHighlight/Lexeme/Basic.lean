import JavaHighlight.Lexeme.Comment
import JavaHighlight.Lexeme.Literal
import JavaHighlight.Lexeme.Munch
import JavaHighlight.Lexeme.Number
import JavaHighlight.Text.Bytes

/-!
# Lexemes

A text falls into lexemes: words, numbers, literals, symbols, blanks, comments and characters
that are none of these. `Lexeme.measure` finds the lexeme at the start of a text, `Lexeme.ofText`
all of them.
-/

namespace JavaHighlight

/-- A piece of a text with its shape. -/
structure Lexeme where
  shape : Shape
  text : List Char
  deriving DecidableEq, Repr

namespace Lexeme

/-- A byte of a character that was cut in two. It has no text of its own. -/
def stray : Lexeme :=
  ⟨.stray, []⟩

def length (l : Lexeme) : Nat :=
  if l.shape = .stray then 1 else Text.byteSize l.text

/-- The number of bytes that consecutive lexemes take up. -/
def totalLength (ls : List Lexeme) : Nat :=
  ls.foldr (fun l n => l.length + n) 0

@[simp] theorem totalLength_nil : totalLength [] = 0 := rfl

@[simp] theorem totalLength_cons (l : Lexeme) (ls : List Lexeme) :
    totalLength (l :: ls) = l.length + totalLength ls := rfl

theorem totalLength_singleton (l : Lexeme) : totalLength [l] = l.length := rfl

@[simp] theorem totalLength_append (a b : List Lexeme) :
    totalLength (a ++ b) = totalLength a + totalLength b := by
  induction a with
  | nil => exact (Nat.zero_add _).symm
  | cons l a ih => rw [List.cons_append, totalLength_cons, totalLength_cons, ih, Nat.add_assoc]

/-- Blanks and finished comments. -/
def isTrivia (l : Lexeme) : Bool :=
  l.shape.isTrivia

/-- A lexeme that counts: neither blank nor finished comment. -/
def isSignificant (l : Lexeme) : Bool :=
  !l.shape.isTrivia

def word (l : Lexeme) : String :=
  String.ofList l.text

/-- The shape of the lexeme at the start of a text, and the number of its characters. -/
def measure : List Char → Shape × Nat
  | [] => (.endOfInput, 0)
  | '/' :: '/' :: cs => Comment.scanLine cs
  | '/' :: '*' :: cs => Comment.scanBlock cs
  | '"' :: cs => Literal.scanDouble cs
  | '\'' :: cs => Literal.scanSingle cs
  | c :: cs =>
    if isBlank c then (.blank, 1 + Extent.run isBlank cs)
    else if isWordStart c then (.word, 1 + Extent.run isWordPart cs)
    else if c.isDigit then Number.scan (c :: cs)
    else if c = '.' && Number.startsWithDigit cs then behind 1 (Number.scanFraction cs)
    else match Symbol.longest? (c :: cs) with
      | some s => (.symbol s, s.spelling.length)
      | none => (.unknown, 1)

/-- The lexeme at the start of a text. -/
def first (cs : List Char) : Lexeme :=
  let (shape, n) := measure cs
  ⟨shape, cs.take n⟩

/-- The lexemes of a text whose first `skip` characters belong to a lexeme found before. -/
def ofTextAfter : Nat → List Char → List Lexeme
  | _, [] => []
  | skip + 1, _ :: cs => ofTextAfter skip cs
  | 0, c :: cs => first (c :: cs) :: ofTextAfter ((measure (c :: cs)).2 - 1) cs

def ofText (cs : List Char) : List Lexeme :=
  ofTextAfter 0 cs

/-- The lexemes of a text from a byte offset on. Each byte of a character that the offset cuts
in two is a lexeme of its own. -/
def ofTextFrom (offset : Nat) (cs : List Char) : List Lexeme :=
  let (strays, rest) := Text.dropBytes offset cs
  List.replicate strays stray ++ ofText rest

theorem ofTextAfter_eq (skip : Nat) (cs : List Char) :
    ofTextAfter skip cs = ofText (cs.drop skip) := by
  induction skip generalizing cs with
  | zero => rfl
  | succ skip ih =>
    cases cs with
    | nil => rfl
    | cons c cs => exact ih cs

end Lexeme

end JavaHighlight
