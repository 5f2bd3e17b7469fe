import JavaHighlight.Text.Lines
import JavaHighlight.Token.Kind

/-!
# Tokens

A token is a span of the source with its kind, its position and a few marks.
-/

namespace JavaHighlight

/-- The bytes from `start` up to but without `stop`. -/
structure Span where
  start : Nat
  stop : Nat
  deriving DecidableEq, Repr

namespace Span

/-- The empty span at an offset. -/
def point (offset : Nat) : Span :=
  ⟨offset, offset⟩

def isEmpty (span : Span) : Bool :=
  span.start = span.stop

/-- The number of bytes of a span; none if its end lies before its start. -/
def length? (span : Span) : Option Nat :=
  if span.start ≤ span.stop then some (span.stop - span.start) else none

/-- The span as it lies in a text that has `offset` bytes in front of this one. -/
def shift (span : Span) (offset : Nat) : Span :=
  ⟨span.start + offset, span.stop + offset⟩

def render (span : Span) : String :=
  toString span.start ++ ".." ++ toString span.stop

/-- The text of a span within its source, empty if the span does not fit the source. -/
def text (span : Span) (source : String) : String :=
  (Text.slice? source span.start span.stop).getD ""

end Span

/-- The marks of a token. -/
structure Flags where
  /-- The token is a keyword only because of where it stands. -/
  contextual : Bool
  /-- A diagnostic was recorded for the token. -/
  error : Bool
  /-- The token is one angle bracket of a run that was split. -/
  split : Bool
  /-- The token is the first on its line that is not trivia. -/
  lineStart : Bool
  deriving DecidableEq, Repr

namespace Flags

def none : Flags :=
  ⟨false, false, false, false⟩

/-- The marks as the bits of a number. -/
def bits (flags : Flags) : Nat :=
  flags.contextual.toNat + 2 * flags.error.toNat + 4 * flags.split.toNat +
    8 * flags.lineStart.toNat

end Flags

/-- A classified piece of the source. -/
structure Token where
  kind : TokenKind
  span : Span
  position : Position
  flags : Flags
  deriving DecidableEq, Repr

namespace Token

def text (token : Token) (source : String) : String :=
  token.span.text source

/-- Blanks and comments. -/
def isTrivia (token : Token) : Bool :=
  token.kind.isTrivia

end Token

end JavaHighlight
