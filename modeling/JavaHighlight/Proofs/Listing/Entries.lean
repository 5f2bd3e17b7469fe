import JavaHighlight.Proofs.Listing.Quoted
import JavaHighlight.Report
import Mathlib.Data.List.Forall2

/-!
# Listings read back

A listing of tokens tells for each token its position, its kind and its text
(`Report.listing_determines_entries`). Quoted texts hold no line feed, so the lines of a listing are
its entries; and neither numbers nor names of kinds hold the sign that stands behind them, so an
entry falls into its fields at the first of each sign (`Report.readEntry?_line`).
-/

namespace JavaHighlight.Report

/-- What a listing says about a token. -/
structure Entry where
  position : Position
  kind : TokenKind
  text : String
  deriving DecidableEq, Repr

def Entry.ofToken (source : String) (token : Token) : Entry :=
  ⟨token.position, token.kind, token.text source⟩

/-- The line of an entry, field by field. -/
def Entry.line (entry : Entry) : List Char :=
  Nat.toDigits 10 entry.position.line ++ ':' :: (Nat.toDigits 10 entry.position.column ++
    ' ' :: (entry.kind.name.toList ++ ' ' :: Text.quoted entry.text.toList))

/-- The tokens that a listing tells of: all but blanks. -/
def listed (output : Output) : List Token :=
  output.tokens.filter (·.kind ≠ .whitespace)

def entries (source : String) (output : Output) : List Entry :=
  (listed output).map (Entry.ofToken source)

/-! ## Reading -/

/-- What stands in front of the first `stop` of a text, and what stands behind it. -/
def field (stop : Char) (cs : List Char) : List Char × List Char :=
  (cs.takeWhile (· ≠ stop), (cs.dropWhile (· ≠ stop)).tail)

def kindNamed? (name : List Char) : Option TokenKind :=
  TokenKind.all.find? (·.name.toList = name)

/-- Read a line of a listing. -/
def readEntry? (cs : List Char) : Option Entry :=
  let (line, cs) := field ':' cs
  let (column, cs) := field ' ' cs
  let (name, cs) := field ' ' cs
  match kindNamed? name, Text.unquote? cs with
  | some kind, some text =>
    some ⟨⟨Nat.ofDigitChars 10 line 0, Nat.ofDigitChars 10 column 0⟩, kind, String.ofList text⟩
  | _, _ => none

def readTokens? (listing : String) : Option (List Entry) :=
  (listing.toList.splitOn '\n').dropLast.mapM readEntry?

theorem field_append {stop : Char} {a : List Char} (h : stop ∉ a) (b : List Char) :
    field stop (a ++ stop :: b) = (a, b) := by
  have hne : ∀ c ∈ a, decide (c ≠ stop) = true := by
    intro c hc
    rw [decide_eq_true_eq]
    rintro rfl
    exact h hc
  unfold field
  rw [List.takeWhile_append_of_pos hne, List.dropWhile_append_of_pos hne]
  simp

theorem kindNamed?_name (kind : TokenKind) : kindNamed? kind.name.toList = some kind := by
  have key : ∀ kind ∈ TokenKind.all, kindNamed? kind.name.toList = some kind := by
    decide +kernel
  exact key kind kind.mem_all

theorem not_mem_name {c : Char} (hc : c = ' ' ∨ c = '\n') (kind : TokenKind) :
    c ∉ kind.name.toList := by
  have key : ∀ kind ∈ TokenKind.all, ' ' ∉ kind.name.toList ∧ '\n' ∉ kind.name.toList := by
    decide +kernel
  rcases hc with rfl | rfl
  · exact (key kind kind.mem_all).1
  · exact (key kind kind.mem_all).2

theorem not_mem_digits {c : Char} (hc : c.isDigit = false) (n : Nat) : c ∉ Nat.toDigits 10 n := by
  intro hmem
  rw [Nat.isDigit_of_mem_toDigits (by decide) (by decide) hmem] at hc
  cases hc

theorem Entry.not_mem_line (entry : Entry) : '\n' ∉ entry.line := by
  unfold Entry.line
  simp only [List.mem_append, List.mem_cons, not_or]
  exact ⟨not_mem_digits rfl _, by decide, not_mem_digits rfl _, by decide,
    not_mem_name (.inr rfl) _, by decide, Text.not_mem_quoted _⟩

theorem readEntry?_line (entry : Entry) : readEntry? entry.line = some entry := by
  unfold readEntry? Entry.line
  rw [field_append (not_mem_digits rfl _)]
  dsimp only
  rw [field_append (not_mem_digits rfl _)]
  dsimp only
  rw [field_append (not_mem_name (.inl rfl) _)]
  dsimp only
  rw [kindNamed?_name, Text.unquote?_quoted]
  dsimp only
  rw [Nat.ofDigitChars_toDigits (by decide) (by decide),
    Nat.ofDigitChars_toDigits (by decide) (by decide), String.ofList_toList]

/-! ## Listings -/

theorem tokenEntry_eq (source : String) (token : Token) :
    tokenEntry source token = (Entry.ofToken source token).line := by
  unfold tokenEntry Entry.line
  simp only [String.toList_append, Nat.toString_eq_repr, Nat.toList_repr, List.append_assoc]
  rfl

/-- A listing consists of the lines of its entries. -/
theorem tokens_eq (source : String) (output : Output) :
    tokens source output = joinLines ((entries source output).map Entry.line) := by
  have hline : tokenEntry source = Entry.line ∘ Entry.ofToken source :=
    funext (tokenEntry_eq source)
  show joinLines ((listed output).map (tokenEntry source)) = _
  unfold entries
  rw [hline, List.map_map]

theorem splitOn_joinLines {ls : List (List Char)} (h : ∀ l ∈ ls, '\n' ∉ l) :
    (joinLines ls).toList.splitOn '\n' = ls ++ [[]] := by
  unfold joinLines
  rw [String.toList_ofList]
  induction ls with
  | nil => rfl
  | cons l ls ih =>
    rw [List.forall_mem_cons] at h
    rw [List.flatMap_cons, List.append_assoc, List.singleton_append,
      List.splitOn_append_cons_self_of_not_mem h.1, ih h.2, List.cons_append]

theorem mapM_readEntry?_line (es : List Entry) : (es.map Entry.line).mapM readEntry? = some es := by
  induction es with
  | nil => rfl
  | cons entry es ih =>
    rw [List.map_cons, List.mapM_cons, readEntry?_line, ih]
    rfl

/-- A listing is read back as its entries. -/
theorem readTokens?_tokens (source : String) (output : Output) :
    readTokens? (tokens source output) = some (entries source output) := by
  have hlines : ∀ l ∈ (entries source output).map Entry.line, '\n' ∉ l :=
    List.forall_mem_map.mpr fun entry _ => entry.not_mem_line
  unfold readTokens?
  rw [tokens_eq, splitOn_joinLines hlines, List.dropLast_concat, mapM_readEntry?_line]

/-- **A listing can be read back.** It has one line with a line feed behind it for each token that
is no blank, in order; each line tells the position, the kind and the text of its token; and two
listings are the same just if they tell the same. This holds of whatever tokens are listed, so for
sources tokenized as a whole and line by line. -/
theorem listing_determines_entries (source : String) (output : Output) :
    (∃ lines : List (List Char),
      (tokens source output).toList = lines.flatMap (· ++ ['\n']) ∧ (∀ l ∈ lines, '\n' ∉ l) ∧
      List.Forall₂ (fun l token => readEntry? l = some (.ofToken source token)) lines
        (output.tokens.filter (·.kind ≠ .whitespace))) ∧
    readTokens? (tokens source output) = some (entries source output) ∧
    ∀ source' output', tokens source output = tokens source' output' ↔
      entries source output = entries source' output' := by
  refine ⟨⟨(entries source output).map Entry.line, ?_, ?_, ?_⟩,
    readTokens?_tokens source output, fun source' output' => ⟨fun h => ?_, fun h => ?_⟩⟩
  · rw [tokens_eq]
    exact String.toList_ofList
  · exact List.forall_mem_map.mpr fun entry _ => entry.not_mem_line
  · unfold entries
    rw [List.map_map, List.forall₂_map_left_iff]
    exact List.forall₂_same.mpr fun token _ => readEntry?_line (.ofToken source token)
  · have hread := readTokens?_tokens source output
    rw [h, readTokens?_tokens] at hread
    exact (Option.some.inj hread).symm
  · rw [tokens_eq, tokens_eq, h]

end JavaHighlight.Report
