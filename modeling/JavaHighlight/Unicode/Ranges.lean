/-!
# Sets of code points

A set of code points is kept as a list of closed ranges.
-/

namespace JavaHighlight.Unicode

def inRanges (ranges : List (Nat × Nat)) (c : Char) : Bool :=
  ranges.any fun range => range.1 ≤ c.toNat && c.toNat ≤ range.2

/-- Whether `c` lies outside ASCII, where the tables of this library start. -/
def beyondAscii (c : Char) : Bool :=
  127 < c.toNat

end JavaHighlight.Unicode
