import JavaHighlight.Tokenize

/-!
# Tokenizing line by line

An editor highlights one line at a time and keeps the state at the end of each. A comment or a
text block that a line leaves open is no problem: the next line takes it up.
-/

namespace JavaHighlight

/-- The constructs that can reach over the end of a line. -/
inductive Construct where
  | blockComment | javadoc | nativeBlock | textBlock
  deriving DecidableEq, Repr

namespace Construct

def kind : Construct → TokenKind
  | .blockComment => .commentBlock
  | .javadoc => .commentJavadoc
  | .nativeBlock => .nativeBlock
  | .textBlock => .textBlock

/-- The number of characters up to and with the first three quotes in a row that come from no
backslash, if there are such. -/
def textBlockEnd? : List Char → Option Nat
  | [] => none
  | '\\' :: _ :: cs => (textBlockEnd? cs).map (· + 2)
  | '"' :: '"' :: '"' :: _ => some 3
  | _ :: cs => (textBlockEnd? cs).map (· + 1)

/-- The number of characters up to and with the end of a construct that is open at the start of
the text, if it ends there. -/
def end? (construct : Construct) (cs : List Char) : Option Nat :=
  match construct with
  | .textBlock => textBlockEnd? cs
  | _ => Comment.closing? cs

/-- The construct that a lexeme leaves open. -/
def ofLexeme? (l : Lexeme) : Option Construct :=
  match l.shape with
  | .unterminatedTextBlock => some .textBlock
  | .unterminatedNativeBlock => some .nativeBlock
  | .unterminatedBlockComment =>
    if Reading.openCommentKind l = .commentJavadoc then some .javadoc else some .blockComment
  | _ => none

end Construct

/-- The state between two lines. -/
structure LineState where
  /-- The construct that is open. -/
  carry : Option Construct
  context : Context
  deriving DecidableEq, Repr

def LineState.initial : LineState :=
  ⟨none, .initial⟩

/-- The tokens and diagnostics of a line, and the state behind it. Spans count from the start
of the line. -/
structure LineOutput where
  tokens : List Token
  diagnostics : List Diagnostic
  state : LineState
  deriving DecidableEq, Repr

namespace Line

/-- The token that goes on with a construct up to the byte `stop` of a line; none if that is the
start of the line. -/
def continuation (construct : Construct) (stop : Nat) : List Token :=
  if stop = 0 then [] else [⟨construct.kind, ⟨0, stop⟩, ⟨1, 1⟩, .none⟩]

/-- The context behind the part of a line that goes on with a construct. -/
def contextAfter (construct : Construct) (part : List Char) (context : Context) : Context :=
  if part = [] then context else context.observe construct.kind (String.ofList part) false

/-- Tokenize the characters of a line from the character at `start` on, where nothing is open. -/
def tokenizeRest (index : LineIndex) (start : Nat) (rest : List Char) (context : Context) :
    LineOutput :=
  let lexemes := Lexeme.ofText rest
  let (emission, progress) :=
    Progress.run .line index ⟨context, 0⟩ (Occurrence.ofLexemes start lexemes)
  { tokens := emission.tokens
    diagnostics := emission.diagnostics
    state := ⟨lexemes.getLast?.bind Construct.ofLexeme?, progress.context⟩ }

end Line

/-- Tokenize a line, with or without its terminator, in the state behind the line before. -/
def tokenizeLine (line : String) (state : LineState) : LineOutput :=
  let cs := line.toList
  let index := LineIndex.ofText cs
  match state.carry with
  | none => Line.tokenizeRest index 0 cs state.context
  | some construct =>
    match construct.end? cs with
    | none =>
      { tokens := Line.continuation construct (Text.byteSize cs)
        diagnostics := []
        state := ⟨some construct, Line.contextAfter construct cs state.context⟩ }
    | some n =>
      let part := cs.take n
      let start := Text.byteSize part
      let rest :=
        Line.tokenizeRest index start (cs.drop n) (Line.contextAfter construct part state.context)
      { rest with tokens := Line.continuation construct start ++ rest.tokens }

namespace Line

/-- A token of a line as a token of the source, in which the line is the given one and starts at
`start`. The column of a token is the same in both. -/
def lift (start line : Nat) (token : Token) : Token :=
  { token with span := token.span.shift start, position := { token.position with line } }

/-- A diagnostic of a line as a diagnostic of the source. -/
def liftDiagnostic (start : Nat) (d : Diagnostic) : Diagnostic :=
  { d with span := d.span.shift start }

/-- Tokenize consecutive lines of a source, the first of which starts at `start` and has the
given number. -/
def tokenizeFrom (start number : Nat) (state : LineState) :
    List (List Char) → Emission × LineState
  | [] => (.empty, state)
  | line :: lines =>
    let output := tokenizeLine (String.ofList line) state
    let (rest, last) :=
      tokenizeFrom (start + Text.byteSize line) (number + 1) output.state lines
    (⟨output.tokens.map (lift start number), output.diagnostics.map (liftDiagnostic start)⟩ ++ rest,
      last)

end Line

/-- Tokenize a source line by line. Spans and lines count from the start of the source. -/
def tokenizeByLine (source : String) : Output :=
  let (emission, _) := Line.tokenizeFrom 0 1 .initial (Text.lines source.toList)
  ⟨emission.tokens, emission.diagnostics, false⟩

end JavaHighlight
