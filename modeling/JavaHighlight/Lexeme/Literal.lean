import JavaHighlight.Lexeme.Extent
import JavaHighlight.Lexeme.Shape
import JavaHighlight.Text.Lines

/-!
# Quoted literals and text blocks

A backslash takes the character behind it into the literal, unless that is a line terminator.
A quoted literal ends at its quote or, unterminated, in front of a line terminator. A text
block ends at the first three quotes in a row that no backslash takes in; line terminators
are part of it.
-/

namespace JavaHighlight.Literal

open Text (isLineEnd)

/-- Measure a quoted literal behind its opening quote, and tell whether a quote closes it. -/
def content (quote : Char) : List Char → Bool × Nat
  | [] => (false, 0)
  | ['\\'] => (false, 1)
  | '\\' :: c :: cs => if isLineEnd c then (false, 1) else behind 2 (content quote cs)
  | c :: cs =>
    if c = quote then (true, 1) else if isLineEnd c then (false, 0)
    else behind 1 (content quote cs)

/-- Measure a text block behind its opening quotes, and tell whether three quotes close it. -/
def blockContent : List Char → Bool × Nat
  | [] => (false, 0)
  | '"' :: '"' :: '"' :: _ => (true, 3)
  | '\\' :: c :: cs =>
    if isLineEnd c then behind 1 (blockContent (c :: cs)) else behind 2 (blockContent cs)
  | _ :: cs => behind 1 (blockContent cs)

theorem content_le (quote : Char) (cs : List Char) : (content quote cs).2 ≤ cs.length := by
  fun_induction content quote cs with
  | case1 => simp
  | case2 => simp
  | case3 => simp
  | case4 c cs _ ih => simp only [snd_behind, List.length_cons]; omega
  | case5 => simp
  | case6 => simp
  | case7 c cs _ _ _ _ ih => simp only [snd_behind, List.length_cons]; omega

theorem blockContent_le (cs : List Char) : (blockContent cs).2 ≤ cs.length := by
  fun_induction blockContent cs with
  | case1 => simp
  | case2 => simp
  | case3 c cs _ ih => simp only [snd_behind, List.length_cons] at *; omega
  | case4 c cs _ ih => simp only [snd_behind, List.length_cons]; omega
  | case5 c cs _ _ ih => simp only [snd_behind, List.length_cons]; omega

/-- The string or text block at the start of a text, measured behind its first quote. -/
def scanDouble : List Char → Shape × Nat
  | '"' :: '"' :: cs =>
    let (closed, length) := blockContent cs
    (if closed then .textBlock else .unterminatedTextBlock, 3 + length)
  | cs =>
    let (closed, length) := content '"' cs
    (if closed then .string else .unterminatedString, 1 + length)

/-- The character literal at the start of a text, measured behind its opening quote. -/
def scanSingle (cs : List Char) : Shape × Nat :=
  let (closed, length) := content '\'' cs
  (if closed then .character else .unterminatedCharacter, 1 + length)

end JavaHighlight.Literal
