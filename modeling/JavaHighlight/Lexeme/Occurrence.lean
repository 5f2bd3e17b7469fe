import JavaHighlight.Lexeme.Basic

/-!
# Occurrences of lexemes

A lexeme of a text together with the offset at which it starts and the significant lexemes
behind it. Reading a text means going through its occurrences from left to right.
-/

namespace JavaHighlight

/-- A lexeme at its place in a text. -/
structure Occurrence where
  lexeme : Lexeme
  /-- The byte offset of the first byte. -/
  start : Nat
  /-- The significant lexemes behind this one. -/
  ahead : List Lexeme
  deriving DecidableEq, Repr

namespace Occurrence

/-- The significant lexemes from the first of the given occurrences on. -/
def significant : List Occurrence → List Lexeme
  | [] => []
  | o :: _ => if o.lexeme.isTrivia then o.ahead else o.lexeme :: o.ahead

/-- The occurrences of consecutive lexemes, the first of which starts at `start`. -/
def ofLexemes (start : Nat) : List Lexeme → List Occurrence
  | [] => []
  | l :: ls =>
    let behind := ofLexemes (start + l.length) ls
    ⟨l, start, significant behind⟩ :: behind

@[simp] theorem map_lexeme_ofLexemes (start : Nat) (ls : List Lexeme) :
    (ofLexemes start ls).map lexeme = ls := by
  induction ls generalizing start with
  | nil => rfl
  | cons l ls ih => simp [ofLexemes, ih]

/-- What occurrences know of the lexemes ahead is what a filter would find. -/
@[simp] theorem significant_ofLexemes (start : Nat) (ls : List Lexeme) :
    significant (ofLexemes start ls) = ls.filter (·.isSignificant) := by
  induction ls generalizing start with
  | nil => rfl
  | cons l ls ih =>
    rw [ofLexemes, significant.eq_def]
    simp only [ih, List.filter_cons, Lexeme.isSignificant, Lexeme.isTrivia]
    cases l.shape.isTrivia <;> rfl

end Occurrence

end JavaHighlight
