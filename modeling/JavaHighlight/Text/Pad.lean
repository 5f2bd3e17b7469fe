/-!
# Padding

A text in a field of a given width. A text that is too wide is left as it is.
-/

namespace JavaHighlight.Text

/-- The side of its field on which a text stands. -/
inductive Alignment where
  | left
  | right
  | center
  deriving DecidableEq, Repr

/-- The number of blanks in front of a text that leaves `surplus` of its field unused. When
a centred text cannot stand in the middle, the odd blank goes behind it. -/
def Alignment.blanksBefore (surplus : Nat) : Alignment → Nat
  | .left => 0
  | .right => surplus
  | .center => surplus / 2

/-- Pad a text with blanks to the given width. -/
def pad (alignment : Alignment) (width : Nat) (text : String) : String :=
  let surplus := width - text.length
  let before := alignment.blanksBefore surplus
  String.ofList (List.replicate before ' ' ++ text.toList ++ List.replicate (surplus - before) ' ')

end JavaHighlight.Text
