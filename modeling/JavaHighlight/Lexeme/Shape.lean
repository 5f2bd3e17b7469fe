import JavaHighlight.Lexeme.Symbol

/-!
# Shapes of lexemes

What the characters of a lexeme alone tell about it. Every word is a `word` here: which words
are keywords depends on what stands around them and is decided later.
-/

namespace JavaHighlight

/-- How the digits of an integer literal are to be read. -/
inductive Radix where
  | decimal | hexadecimal | octal | binary
  deriving DecidableEq, Repr

/-- The shape of a lexeme. -/
inductive Shape where
  | word
  | integer (radix : Radix)
  | float
  | character
  | string
  | textBlock
  | symbol (s : Symbol)
  | blank
  | lineComment
  | blockComment
  | javadocComment
  /-- A comment that holds a native method body, from `/*-{` on. -/
  | nativeBlock
  /-- A character that starts no lexeme. -/
  | unknown
  /-- A byte of a character that was cut in two. -/
  | stray
  | unterminatedString
  | unterminatedCharacter
  | unterminatedTextBlock
  | unterminatedBlockComment
  | unterminatedNativeBlock
  | endOfInput
  deriving DecidableEq, Repr

namespace Shape

/-- The number of a shape. Shapes of one group have neighbouring numbers. -/
def code : Shape → Nat
  | .word => 0
  | .integer .decimal => 1
  | .integer .hexadecimal => 2
  | .integer .octal => 3
  | .integer .binary => 4
  | .float => 5
  | .character => 6
  | .string => 7
  | .textBlock => 8
  | .symbol s =>
    if s ∈ Symbol.operators then 32 + Symbol.operators.idxOf s
    else 80 + Symbol.delimiters.idxOf s
  | .blank => 112
  | .lineComment => 113
  | .blockComment => 114
  | .javadocComment => 115
  | .nativeBlock => 116
  | .unknown => 240
  | .stray => 240
  | .unterminatedString => 241
  | .unterminatedCharacter => 242
  | .unterminatedTextBlock => 243
  | .unterminatedBlockComment => 244
  | .unterminatedNativeBlock => 245
  | .endOfInput => 255

/-- The spelling of a shape that is always written the same. -/
def spelling? : Shape → Option String
  | .symbol s => some s.spelling
  | _ => none

def name : Shape → String
  | .word => "identifier"
  | .integer _ => "integer"
  | .float => "float"
  | .character => "char"
  | .string => "string"
  | .textBlock => "text block"
  | .symbol s => s.spelling
  | .blank => "whitespace"
  | .lineComment => "line comment"
  | .blockComment => "block comment"
  | .javadocComment => "javadoc comment"
  | .nativeBlock => "native block"
  | .unknown | .stray => "invalid byte"
  | .unterminatedString => "unterminated string"
  | .unterminatedCharacter => "unterminated char"
  | .unterminatedTextBlock => "unterminated text block"
  | .unterminatedBlockComment => "unterminated block comment"
  | .unterminatedNativeBlock => "unterminated native block"
  | .endOfInput => "end of input"

/-- Blanks and finished comments. -/
def isTrivia : Shape → Bool
  | .blank | .lineComment | .blockComment | .javadocComment | .nativeBlock => true
  | _ => false

/-- Shapes of text that is no part of any program. -/
def isError : Shape → Bool
  | .unknown | .stray | .unterminatedString | .unterminatedCharacter
  | .unterminatedTextBlock | .unterminatedBlockComment | .unterminatedNativeBlock => true
  | _ => false

/-- Operators, as opposed to delimiters. -/
def isOperator : Shape → Bool
  | .symbol s => s ∈ Symbol.operators
  | _ => false

theorem isTrivia_eq (shape : Shape) :
    shape.isTrivia = decide (112 ≤ shape.code ∧ shape.code ≤ 127) := by
  cases shape with
  | integer radix => cases radix <;> decide
  | symbol s => cases s <;> decide
  | _ => decide

theorem isError_eq (shape : Shape) :
    shape.isError = decide (240 ≤ shape.code ∧ shape.code ≤ 254) := by
  cases shape with
  | integer radix => cases radix <;> decide
  | symbol s => cases s <;> decide
  | _ => decide

theorem isOperator_eq (shape : Shape) :
    shape.isOperator = decide (32 ≤ shape.code ∧ shape.code ≤ 79) := by
  cases shape with
  | integer radix => cases radix <;> decide
  | symbol s => cases s <;> decide
  | _ => decide

/-- The number of closing angle brackets in a run of nothing else, and zero otherwise. -/
def closingAngles : Shape → Nat
  | .symbol s => s.closingAngles
  | _ => 0

end Shape

end JavaHighlight
