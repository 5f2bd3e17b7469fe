import JavaHighlight.Lexeme.Occurrence
import JavaHighlight.Reading

/-!
# Emissions

Reading a lexeme emits tokens and diagnostics and leads from one state of progress to the
next. `Progress.run` goes through consecutive occurrences and collects what they emit.
-/

namespace JavaHighlight

/-- Tokens and diagnostics in the order in which they were found. -/
structure Emission where
  tokens : List Token
  diagnostics : List Diagnostic
  deriving DecidableEq, Repr

namespace Emission

def empty : Emission :=
  ⟨[], []⟩

def append (a b : Emission) : Emission :=
  ⟨a.tokens ++ b.tokens, a.diagnostics ++ b.diagnostics⟩

instance : Append Emission :=
  ⟨append⟩

@[simp] theorem tokens_append (a b : Emission) : (a ++ b).tokens = a.tokens ++ b.tokens := rfl

@[simp] theorem diagnostics_append (a b : Emission) :
    (a ++ b).diagnostics = a.diagnostics ++ b.diagnostics := rfl

@[simp] theorem tokens_empty : empty.tokens = [] := rfl

@[simp] theorem diagnostics_empty : empty.diagnostics = [] := rfl

end Emission

/-- How far the reading of a source has come. -/
structure Progress where
  context : Context
  /-- The line of the last token that is not trivia; zero if there is none. -/
  lastLine : Nat
  deriving DecidableEq, Repr

namespace Progress

/-- Emit one piece as a token that starts at `start`. -/
def emitPiece (index : LineIndex) (start : Nat) (piece : Piece) (progress : Progress) :
    Emission × Progress :=
  let span := ⟨start, start + piece.length⟩
  let position := index.position start
  let issue := progress.context.issue? piece.kind
  let lineStart := !piece.kind.isTrivia && position.line ≠ progress.lastLine
  let flags := { piece.flags with error := piece.flags.error || issue.isSome, lineStart }
  ({ tokens := [⟨piece.kind, span, position, flags⟩]
     diagnostics := issue.toList.map fun issue => ⟨span, .unbalanced issue⟩ },
   { context :=
       progress.context.observe piece.kind (String.ofList piece.text) piece.opensLambda
     lastLine := if lineStart then position.line else progress.lastLine })

/-- Emit consecutive pieces, the first of which starts at `start`. -/
def emitPieces (index : LineIndex) (start : Nat) :
    List Piece → Progress → Emission × Progress
  | [], progress => (.empty, progress)
  | piece :: pieces, progress =>
    let (emission, progress) := progress.emitPiece index start piece
    let (rest, progress) := emitPieces index (start + piece.length) pieces progress
    (emission ++ rest, progress)

/-- Emit a lexeme. What is wrong with the lexeme comes before what is wrong with brackets. -/
def emit (mode : Mode) (index : LineIndex) (progress : Progress) (o : Occurrence) :
    Emission × Progress :=
  let reading := Reading.ofLexeme mode progress.context o.lexeme o.ahead
  let span := ⟨o.start, o.start + o.lexeme.length⟩
  let own : Emission := ⟨[], reading.problem.toList.map fun problem => ⟨span, problem⟩⟩
  let (emission, progress) := progress.emitPieces index o.start reading.pieces
  (own ++ emission, progress)

/-- Emit consecutive lexemes. -/
def run (mode : Mode) (index : LineIndex) : Progress → List Occurrence → Emission × Progress
  | progress, [] => (.empty, progress)
  | progress, o :: os =>
    let (emission, progress) := progress.emit mode index o
    let (rest, progress) := progress.run mode index os
    (emission ++ rest, progress)

end Progress

end JavaHighlight
