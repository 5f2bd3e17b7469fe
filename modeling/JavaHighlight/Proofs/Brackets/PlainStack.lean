import JavaHighlight.Context.Region
import JavaHighlight.Diagnostic
import JavaHighlight.Lexeme.Basic
import Mathlib.Tactic.SplitIfs

/-!
# A plain stack of brackets

The braces and parentheses of a text, looked at without knowing what any of them encloses. The
stack records a diagnostic for each closing bracket that does not fit, and one for what is left
open at the end. It records none exactly for balanced words (`diagnostics_eq_nil_iff`).
-/

namespace JavaHighlight

namespace Bracket

def openingSymbol : Bracket → Symbol
  | .brace => .leftBrace
  | .paren => .leftParen
  | .angle => .less

def closingSymbol : Bracket → Symbol
  | .brace => .rightBrace
  | .paren => .rightParen
  | .angle => .greater

end Bracket

/-- Words of braces and parentheses in which each closing bracket fits the last open one, and
none is left open. -/
inductive Balanced : List Symbol → Prop where
  | nil : Balanced []
  | pair {bracket : Bracket} {inner rest : List Symbol} : bracket ≠ .angle → Balanced inner →
      Balanced rest → Balanced (bracket.openingSymbol :: (inner ++ bracket.closingSymbol :: rest))

namespace PlainStack

/-- Close what is on top. A bracket of the other kind is closed as well, but not without an
issue. -/
def close (bracket : Bracket) : List Bracket → Option BracketIssue × List Bracket
  | [] => (some (.unexpectedCloser bracket.closer), [])
  | top :: stack =>
    (if top = bracket then none else some (.mismatched top.closer bracket.closer), stack)

def step (stack : List Bracket) : Symbol → Option BracketIssue × List Bracket
  | .leftBrace => (none, .brace :: stack)
  | .leftParen => (none, .paren :: stack)
  | .rightBrace => close .brace stack
  | .rightParen => close .paren stack
  | _ => (none, stack)

/-- What a lexeme does to the stack. -/
def stepLexeme (stack : List Bracket) (l : Lexeme) : Option BracketIssue × List Bracket :=
  match l.shape with
  | .symbol s => step stack s
  | _ => (none, stack)

/-- The diagnostics of consecutive lexemes, the first of which starts at `start`, and the stack
behind them. -/
def run (start : Nat) (stack : List Bracket) : List Lexeme → List Diagnostic × List Bracket
  | [] => ([], stack)
  | l :: ls =>
    let (issue, stack) := stepLexeme stack l
    let (rest, last) := run (start + l.length) stack ls
    (issue.toList.map (fun issue => ⟨⟨start, start + l.length⟩, .unbalanced issue⟩) ++ rest, last)

/-- What is left open at the end of a text of `size` bytes. -/
def unclosed (size : Nat) (stack : List Bracket) : List Diagnostic :=
  stack.head?.toList.map fun top => ⟨.point size, .unbalanced (.unclosed stack.length top.closer)⟩

/-- All diagnostics of the lexemes of a text of `size` bytes from the offset `start` on. -/
def diagnostics (size start : Nat) (ls : List Lexeme) : List Diagnostic :=
  let (found, last) := run start [] ls
  found ++ unclosed size last

/-- The brace or parenthesis that a lexeme is. -/
def symbol? (l : Lexeme) : Option Symbol :=
  match l.shape with
  | .symbol s =>
    if s ∈ [Symbol.leftBrace, .rightBrace, .leftParen, .rightParen] then some s else none
  | _ => none

def word (ls : List Lexeme) : List Symbol :=
  ls.filterMap symbol?

/-! ## Steps -/

theorem step_openingSymbol {bracket : Bracket} (h : bracket ≠ .angle) (stack : List Bracket) :
    step stack bracket.openingSymbol = (none, bracket :: stack) := by
  cases bracket with
  | brace => rfl
  | paren => rfl
  | angle => exact absurd rfl h

theorem step_closingSymbol {bracket : Bracket} (h : bracket ≠ .angle) (stack : List Bracket) :
    step stack bracket.closingSymbol = close bracket stack := by
  cases bracket with
  | brace => rfl
  | paren => rfl
  | angle => exact absurd rfl h

theorem stepLexeme_of_symbol?_eq_none {l : Lexeme} (h : symbol? l = none)
    (stack : List Bracket) : stepLexeme stack l = (none, stack) := by
  unfold symbol? at h
  unfold stepLexeme
  split
  · next s hl =>
    rw [hl] at h
    dsimp only at h
    split_ifs at h with hs
    cases s <;> first | rfl | exact absurd (by decide) hs
  · rfl

theorem stepLexeme_of_symbol?_eq_some {l : Lexeme} {s : Symbol} (h : symbol? l = some s) :
    l.shape = .symbol s ∧ ∃ bracket : Bracket, bracket ≠ .angle ∧
      (s = bracket.openingSymbol ∨ s = bracket.closingSymbol) := by
  unfold symbol? at h
  split at h
  · next s' hl =>
    split_ifs at h with hs
    cases h
    refine ⟨hl, ?_⟩
    have key : ∀ s ∈ [Symbol.leftBrace, .rightBrace, .leftParen, .rightParen],
        ∃ bracket ∈ [Bracket.brace, .paren],
          s = bracket.openingSymbol ∨ s = bracket.closingSymbol := by decide
    obtain ⟨bracket, hbracket, hsymbol⟩ := key s hs
    exact ⟨bracket, by rintro rfl; simp at hbracket, hsymbol⟩
  · cases h

/-! ## Balanced words -/

/-- Words that close the brackets of a stack from its top down and all those that they open
themselves. -/
inductive Closes : List Bracket → List Symbol → Prop where
  | nil : Closes [] []
  | opening {bracket : Bracket} {stack : List Bracket} {w : List Symbol} : bracket ≠ .angle →
      Closes (bracket :: stack) w → Closes stack (bracket.openingSymbol :: w)
  | closing {bracket : Bracket} {stack : List Bracket} {w : List Symbol} : bracket ≠ .angle →
      Closes stack w → Closes (bracket :: stack) (bracket.closingSymbol :: w)

/-- Words that fall into balanced words with the closing brackets of a stack between them. -/
inductive Falls : List Bracket → List Symbol → Prop where
  | last {w : List Symbol} : Balanced w → Falls [] w
  | cons {bracket : Bracket} {stack : List Bracket} {w rest : List Symbol} :
      Balanced w → Falls stack rest → Falls (bracket :: stack) (w ++ bracket.closingSymbol :: rest)

theorem Falls.opening {bracket : Bracket} (hbracket : bracket ≠ .angle) {stack : List Bracket}
    {w : List Symbol} (h : Falls (bracket :: stack) w) :
    Falls stack (bracket.openingSymbol :: w) := by
  cases h with
  | cons hinner hrest =>
    cases hrest with
    | last hrest => exact .last (.pair hbracket hinner hrest)
    | cons hnext hrest => simpa using Falls.cons (Balanced.pair hbracket hinner hnext) hrest

theorem Closes.falls {stack : List Bracket} {w : List Symbol} (h : Closes stack w) :
    Falls stack w := by
  induction h with
  | nil => exact .last .nil
  | opening hbracket _ ih => exact ih.opening hbracket
  | closing _ _ ih => exact .cons .nil ih

theorem Closes.append {w : List Symbol} (hw : Balanced w) {stack : List Bracket}
    {rest : List Symbol} (hrest : Closes stack rest) : Closes stack (w ++ rest) := by
  induction hw generalizing stack rest with
  | nil => exact hrest
  | pair hbracket _ _ ihinner ihrest =>
    rw [List.cons_append, List.append_assoc, List.cons_append]
    exact .opening hbracket (ihinner (.closing hbracket (ihrest hrest)))

theorem closes_nil_iff {w : List Symbol} : Closes [] w ↔ Balanced w := by
  constructor
  · intro h
    cases h.falls with
    | last hw => exact hw
  · intro hw
    rw [← List.append_nil w]
    exact .append hw .nil

theorem closes_openingSymbol_iff {bracket : Bracket} (h : bracket ≠ .angle)
    {stack : List Bracket} {w : List Symbol} :
    Closes stack (bracket.openingSymbol :: w) ↔ Closes (bracket :: stack) w := by
  refine ⟨fun hw => ?_, .opening h⟩
  generalize hs : bracket.openingSymbol :: w = w' at hw
  cases hw with
  | nil => cases hs
  | @opening bracket' =>
    obtain ⟨hs, rfl⟩ := List.cons.inj hs
    have hbracket : bracket = bracket' := by
      cases bracket <;> cases bracket' <;> first | rfl | cases hs
    rwa [hbracket]
  | @closing bracket' =>
    obtain ⟨hs, rfl⟩ := List.cons.inj hs
    cases bracket <;> cases bracket' <;> cases hs

theorem closes_closingSymbol_iff {bracket : Bracket} (h : bracket ≠ .angle)
    {stack : List Bracket} {w : List Symbol} :
    Closes stack (bracket.closingSymbol :: w) ↔
      ∃ rest, stack = bracket :: rest ∧ Closes rest w := by
  constructor
  · intro hw
    generalize hs : bracket.closingSymbol :: w = w' at hw
    cases hw with
    | nil => cases hs
    | @opening bracket' =>
      obtain ⟨hs, rfl⟩ := List.cons.inj hs
      cases bracket <;> cases bracket' <;> cases hs
    | @closing bracket' =>
      obtain ⟨hs, rfl⟩ := List.cons.inj hs
      have hbracket : bracket = bracket' := by
        cases bracket <;> cases bracket' <;> first | rfl | cases hs
      exact ⟨_, by rw [hbracket], by assumption⟩
  · rintro ⟨rest, rfl, hw⟩
    exact .closing h hw

/-! ## What the stack records -/

/-- The stack records nothing and is empty at the end exactly if the brackets close what is on
it and what they open themselves. -/
theorem run_quiet_iff (start : Nat) (stack : List Bracket) (ls : List Lexeme) :
    (run start stack ls).1 = [] ∧ (run start stack ls).2 = [] ↔ Closes stack (word ls) := by
  induction ls generalizing start stack with
  | nil =>
    constructor
    · rintro ⟨-, hstack⟩
      rw [show stack = [] from hstack]
      exact .nil
    · intro h
      cases h
      exact ⟨rfl, rfl⟩
  | cons l ls ih =>
    unfold run word
    dsimp only
    cases hs : symbol? l with
    | none =>
      rw [stepLexeme_of_symbol?_eq_none hs, List.filterMap_cons_none hs]
      exact ih _ _
    | some s =>
      obtain ⟨hl, bracket, hbracket, hsymbol⟩ := stepLexeme_of_symbol?_eq_some hs
      have hstep : stepLexeme stack l = step stack s := by rw [stepLexeme, hl]
      rw [hstep, List.filterMap_cons_some hs]
      rcases hsymbol with rfl | rfl
      · rw [step_openingSymbol hbracket, closes_openingSymbol_iff hbracket]
        exact ih _ _
      · rw [step_closingSymbol hbracket, closes_closingSymbol_iff hbracket]
        cases stack with
        | nil => simp [close]
        | cons top stack =>
          by_cases htop : top = bracket
          · subst htop
            rw [close, if_pos rfl]
            simpa [word] using ih _ _
          · rw [close, if_neg htop]
            simp [htop]

theorem diagnostics_eq_nil_iff (size start : Nat) (ls : List Lexeme) :
    diagnostics size start ls = [] ↔ Balanced (word ls) := by
  have hunclosed : ∀ stack, unclosed size stack = [] ↔ stack = [] := by
    intro stack
    cases stack <;> simp [unclosed]
  unfold diagnostics
  dsimp only
  rw [List.append_eq_nil_iff, hunclosed, run_quiet_iff, closes_nil_iff]

end PlainStack

end JavaHighlight
