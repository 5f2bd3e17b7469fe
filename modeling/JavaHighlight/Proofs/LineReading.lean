import JavaHighlight.Lexeme.Tiling
import JavaHighlight.Line
import JavaHighlight.Proofs.Visit

/-!
# The parts of a line

A line starts with the part that goes on with an open construct, which may be empty or the
whole line, and what is left of it is read like any other text (`tokenizeLine_eq`).
-/

namespace JavaHighlight

namespace Line

/-- The number of characters of a line that go on with what is open in front of it. -/
def carriedLength (carry : Option Construct) (cs : List Char) : Nat :=
  match carry with
  | none => 0
  | some construct => (construct.end? cs).getD cs.length

/-- The part of a line that goes on with what is open in front of it. -/
def carriedPart (carry : Option Construct) (cs : List Char) : List Char :=
  cs.take (carriedLength carry cs)

/-- What is left of a line behind that part. -/
def rest (carry : Option Construct) (cs : List Char) : List Char :=
  cs.drop (carriedLength carry cs)

/-- The token of the part that goes on with what is open, unless it is empty. -/
def carriedTokens (carry : Option Construct) (cs : List Char) : List Token :=
  match carry with
  | none => []
  | some construct => continuation construct (Text.byteSize (carriedPart carry cs))

/-- The context in which the rest of a line is read. -/
def contextOfRest (state : LineState) (cs : List Char) : Context :=
  match state.carry with
  | none => state.context
  | some construct => contextAfter construct (carriedPart state.carry cs) state.context

def staysOpen (carry : Option Construct) (cs : List Char) : Bool :=
  carry.any fun construct => construct.end? cs = none

def carryBehind (carry : Option Construct) (cs : List Char) : Option Construct :=
  if staysOpen carry cs then carry
  else (Lexeme.ofText (rest carry cs)).getLast?.bind Construct.ofLexeme?

/-- The lexemes of the rest of a line at their places. -/
def occurrences (carry : Option Construct) (cs : List Char) : List Occurrence :=
  Occurrence.ofLexemes (Text.byteSize (carriedPart carry cs)) (Lexeme.ofText (rest carry cs))

def run (state : LineState) (cs : List Char) : Emission × Progress :=
  Progress.run .line (LineIndex.ofText cs) ⟨contextOfRest state cs, 0⟩
    (occurrences state.carry cs)

/-- The lexemes of the rest of a line with the progress in front of each. -/
def visits (state : LineState) (cs : List Char) : List Visit :=
  Progress.visits .line (LineIndex.ofText cs) ⟨contextOfRest state cs, 0⟩
    (occurrences state.carry cs)

@[simp] theorem carriedPart_append_rest (carry : Option Construct) (cs : List Char) :
    carriedPart carry cs ++ rest carry cs = cs :=
  List.take_append_drop _ _

theorem byteSize_parts (carry : Option Construct) (cs : List Char) :
    Text.byteSize (carriedPart carry cs) + Text.byteSize (rest carry cs) = Text.byteSize cs := by
  rw [← Text.byteSize_append, carriedPart_append_rest]

theorem staysOpen_some_iff {construct : Construct} {cs : List Char} :
    staysOpen (some construct) cs = true ↔ construct.end? cs = none := by
  simp [staysOpen]

theorem rest_of_staysOpen {carry : Option Construct} {cs : List Char}
    (h : staysOpen carry cs = true) : rest carry cs = [] := by
  cases carry with
  | none => cases h
  | some construct =>
    rw [rest, carriedLength, staysOpen_some_iff.mp h, Option.getD_none, List.drop_length]

theorem carriedPart_of_staysOpen {carry : Option Construct} {cs : List Char}
    (h : staysOpen carry cs = true) : carriedPart carry cs = cs := by
  have hparts := carriedPart_append_rest carry cs
  rwa [rest_of_staysOpen h, List.append_nil] at hparts

/-- A line is its part that goes on with what is open, and then a text of its own. -/
theorem tokenizeLine_eq (line : String) (state : LineState) :
    tokenizeLine line state =
      { tokens := carriedTokens state.carry line.toList ++ (run state line.toList).1.tokens
        diagnostics := (run state line.toList).1.diagnostics
        state := ⟨carryBehind state.carry line.toList, (run state line.toList).2.context⟩ } := by
  obtain ⟨carry, context⟩ := state
  cases carry with
  | none => rfl
  | some construct =>
    cases hend : construct.end? line.toList with
    | some n =>
      unfold tokenizeLine tokenizeRest
      simp [hend, carriedTokens, carriedPart, carriedLength, run, contextOfRest, occurrences, rest,
        carryBehind, staysOpen]
    | none =>
      have hrest : rest (some construct) line.toList = [] :=
        rest_of_staysOpen (staysOpen_some_iff.mpr hend)
      unfold tokenizeLine
      simp [hend, carriedTokens, carriedPart, carriedLength, run, contextOfRest, occurrences,
        hrest, Lexeme.ofText_nil, Occurrence.ofLexemes, Progress.run, carryBehind, staysOpen]

theorem carry_tokenizeLine (line : List Char) (state : LineState) :
    (tokenizeLine (String.ofList line) state).state.carry = carryBehind state.carry line := by
  rw [tokenizeLine_eq, String.toList_ofList]

/-- The state behind consecutive lines, the first of which starts a source. -/
def stateBehind (lines : List String) : LineState :=
  lines.foldl (fun state line => (tokenizeLine line state).state) .initial

/-- What holds in front of the first line and is kept by each line holds behind any lines. -/
theorem stateBehind_of_kept {P : LineState → Prop} (initial : P .initial)
    (kept : ∀ state line, P state → P (tokenizeLine line state).state) (lines : List String) :
    P (stateBehind lines) := by
  have hall : ∀ (lines : List String) (state : LineState), P state →
      P (lines.foldl (fun state line => (tokenizeLine line state).state) state) := by
    intro lines
    induction lines with
    | nil => exact fun _ h => h
    | cons line lines ih => exact fun state h => ih _ (kept state line h)
  exact hall lines .initial initial

end Line

end JavaHighlight
