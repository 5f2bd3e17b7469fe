import JavaHighlight.TokenStream

/-!
# Tokenizing whole sources
-/

namespace JavaHighlight

/-- Tokenize a source from a byte offset on, in the context of an empty source. Spans, lines and
columns count from the start of the source. The offset is moved back to the start of the
character it lies in; offsets past the end count as the end. -/
def tokenizeFrom (source : String) (offset : Nat) : Output :=
  (TokenStream.openAt source (Text.floorBoundary offset source.toList) false).drain false

def tokenize (source : String) : Output :=
  tokenizeFrom source 0

theorem tokenize_eq_drain (source : String) :
    tokenize source = (TokenStream.openAt source 0 false).drain false := by
  have hfloor : Text.floorBoundary 0 source.toList = 0 :=
    Nat.le_zero.mp (Text.floorBoundary_le 0 _)
  rw [tokenize, tokenizeFrom, hfloor]

/-- Tokenize a source unless a stop is asked for from the start. -/
def tokenizeUnlessStopped (source : String) (stop : Bool) : Output :=
  (TokenStream.openAt source 0 true).drain stop

/-- Tokenize sources that have nothing to do with each other. -/
def tokenizeAll (sources : List String) : List Output :=
  sources.map tokenize

end JavaHighlight
