import JavaHighlight.Emission

/-!
# Token streams

A stream hands out the tokens of a source one at a time. It can be asked to stop between two
lexemes; the tokens of a lexeme that was begun are still handed out. A stream that has come to
its end, or has been stopped, stays so.
-/

namespace JavaHighlight

/-- The tokens and the diagnostics of a source. -/
structure Output where
  tokens : List Token
  diagnostics : List Diagnostic
  /-- Reading was stopped before the end of the source. -/
  cancelled : Bool
  deriving DecidableEq, Repr

def Output.significant (output : Output) : List Token :=
  output.tokens.filter (!·.isTrivia)

/-- Whether a stream can still read. -/
inductive Status where
  | reading | ended | cancelled
  deriving DecidableEq, Repr

/-- A source of which a part has been read. -/
structure TokenStream where
  index : LineIndex
  /-- The lexemes that are still to be read. -/
  upcoming : List Occurrence
  /-- The tokens that were read but not yet handed out. -/
  pending : List Token
  progress : Progress
  /-- The diagnostics so far. -/
  recorded : List Diagnostic
  /-- Whether the stream can be asked to stop. -/
  stoppable : Bool
  status : Status
  deriving DecidableEq, Repr

namespace TokenStream

/-- A stream that starts at a byte offset, in the context of an empty source. Offsets past the
end count as the end; a character that the offset cuts in two is read byte by byte. -/
def openAt (source : String) (offset : Nat) (stoppable : Bool) : TokenStream :=
  let index := LineIndex.ofText source.toList
  { index
    upcoming :=
      Occurrence.ofLexemes (min offset index.size) (Lexeme.ofTextFrom offset source.toList)
    pending := []
    progress := ⟨.initial, 0⟩
    recorded := []
    stoppable
    status := .reading }

def context (s : TokenStream) : Context :=
  s.progress.context

def isCancelled (s : TokenStream) : Bool :=
  s.status = .cancelled

/-- Read one more lexeme if nothing is pending. The stream ends or stops here if it has to. -/
def refill (stop : Bool) (s : TokenStream) : TokenStream :=
  if s.pending ≠ [] ∨ s.status ≠ .reading then s
  else if stop && s.stoppable then { s with status := .cancelled }
  else match s.upcoming with
    | [] => { s with status := .ended }
    | o :: upcoming =>
      let (emission, progress) := s.progress.emit .whole s.index o
      { s with
        upcoming, progress
        pending := emission.tokens
        recorded := s.recorded ++ emission.diagnostics }

/-- The next token, if there is one. `stop` tells whether the stream is asked to stop. -/
def next (stop : Bool) (s : TokenStream) : Option Token × TokenStream :=
  let s := s.refill stop
  match s.pending with
  | [] => (none, s)
  | token :: pending => (some token, { s with pending })

def unclosed (s : TokenStream) (progress : Progress) : List Diagnostic :=
  progress.context.unclosed?.toList.map fun issue => ⟨.point s.index.size, .unbalanced issue⟩

/-- The tokens that are still to come, with all diagnostics from the start on. `stop` tells
whether the stream is asked to stop meanwhile. -/
def drain (stop : Bool) (s : TokenStream) : Output :=
  match s.status with
  | .cancelled => ⟨s.pending, s.recorded, true⟩
  | .ended => ⟨s.pending, s.recorded ++ s.unclosed s.progress, false⟩
  | .reading =>
    if stop && s.stoppable then ⟨s.pending, s.recorded, true⟩
    else
      let (emission, progress) := s.progress.run .whole s.index s.upcoming
      ⟨s.pending ++ emission.tokens,
        s.recorded ++ emission.diagnostics ++ s.unclosed progress, false⟩

/-- All diagnostics, once the rest of the source has been read. -/
def finish (stop : Bool) (s : TokenStream) : List Diagnostic :=
  (s.drain stop).diagnostics

end TokenStream

end JavaHighlight
