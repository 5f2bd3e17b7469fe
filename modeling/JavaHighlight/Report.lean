import JavaHighlight.Text.Pad
import JavaHighlight.Line

/-!
# Reports

Listings of what was found in a source: its tokens, how often each kind occurs, and its
diagnostics. Every entry is a line of its own.
-/

namespace JavaHighlight.Report

/-- A number of entries as lines of text. -/
def joinLines (entries : List (List Char)) : String :=
  String.ofList (entries.flatMap (· ++ ['\n']))

/-- The entry of a token: its position, its kind and its quoted text. -/
def tokenEntry (source : String) (token : Token) : List Char :=
  (toString token.position.line ++ ":" ++ toString token.position.column ++ " " ++
    token.kind.name ++ " ").toList ++ Text.quoted (token.text source).toList

def tokens (source : String) (output : Output) : String :=
  joinLines ((output.tokens.filter (·.kind ≠ .whitespace)).map (tokenEntry source))

def count (output : Output) (kind : TokenKind) : Nat :=
  output.tokens.countP (·.kind = kind)

/-- The entry of a kind: its name, and how often it occurs. -/
def countEntry (output : Output) (kind : TokenKind) : List Char :=
  (Text.pad .left 20 kind.name ++ " " ++ toString (count output kind)).toList

/-- The kinds that occur in a source, in order, and then how much there is in all. -/
def summary (output : Output) : String :=
  let kinds := TokenKind.all.filter (count output · ≠ 0)
  let total := toString output.tokens.length ++ " tokens, " ++
    toString output.diagnostics.length ++ " diagnostics"
  joinLines (kinds.map (countEntry output) ++ [total.toList])

/-- The entry of a diagnostic: the name of the source, the position and the message. -/
def diagnosticEntry (path : String) (index : LineIndex) (d : Diagnostic) : List Char :=
  let position := index.position d.offset
  (path ++ ":" ++ toString position.line ++ ":" ++ toString position.column ++ ": " ++
    d.message).toList

def diagnostics (path source : String) (output : Output) : String :=
  joinLines (output.diagnostics.map (diagnosticEntry path (LineIndex.ofText source.toList)))

end JavaHighlight.Report
