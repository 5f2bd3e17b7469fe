import JavaHighlight.Proofs.Faults.Readings
import JavaHighlight.Proofs.Tiling.Scan

/-!
# Literals in quotes

A literal in quotes is made of units, which are escapes and characters that stand for themselves
(`Literal.Units`). It is closed by the first quote that comes behind units only, and without
such a quote it ends where its line does (`Reader.read_quoted`).

The units in front of a quote are the steps of the scanner, so the induction on them closes the
literal (`Literal.content_of_units`), and the induction of the scanner finds units and a quote
unless the line ends (`Literal.content_of_not_units`).
-/

namespace JavaHighlight

open Text (isLineEnd)

namespace LiteralForm

def quote : LiteralForm → Char
  | .character => '\''
  | .string | .textBlock => '"'

def closedShape : LiteralForm → Shape
  | .string => .string
  | .character => .character
  | .textBlock => .textBlock

theorem quote_ne_backslash (form : LiteralForm) : form.quote ≠ '\\' := by
  cases form <;> decide

end LiteralForm

namespace Literal

/-- What may stand between two quotes on one line. A backslash takes in the character behind it,
be it a quote or another backslash. -/
inductive Units (quote : Char) : List Char → Prop
  | nil : Units quote []
  | escape {c : Char} {cs : List Char} (hline : isLineEnd c = false) (h : Units quote cs) :
    Units quote ('\\' :: c :: cs)
  | plain {c : Char} {cs : List Char} (hquote : c ≠ quote) (hescape : c ≠ '\\')
    (hline : isLineEnd c = false) (h : Units quote cs) : Units quote (c :: cs)

variable {quote : Char} {body cs : List Char}

theorem content_of_units (hquote : quote ≠ '\\') (h : Units quote body) (after : List Char) :
    content quote (body ++ quote :: after) = (true, body.length + 1) := by
  induction h with
  | nil => rw [List.nil_append, content_cons hquote, if_pos rfl]; rfl
  | @escape c cs hline _ ih =>
    rw [List.cons_append, List.cons_append, content, if_neg (by simp [hline]), ih]
    simp only [behind, List.length_cons]
    rw [Nat.add_comm 2]
  | @plain c cs hne hescape hline _ ih =>
    rw [List.cons_append, content_cons hescape, if_neg hne, if_neg (by simp [hline]), ih]
    simp only [behind, List.length_cons]
    rw [Nat.add_comm 1]

theorem content_of_not_units (h : ∀ body after, cs = body ++ quote :: after → ¬Units quote body) :
    content quote cs = (false, Extent.run (!isLineEnd ·) cs) := by
  fun_induction content quote cs with
  | case1 => rfl
  | case2 => rfl
  | case3 c cs hline =>
    rw [Extent.run_cons_of_pos rfl, Extent.run_cons_of_neg (congrArg not hline)]
  | case4 c cs hline ih =>
    rw [Bool.not_eq_true] at hline
    have hrest := ih fun body after heq hunits =>
      h ('\\' :: c :: body) after (by rw [heq]; rfl) (.escape hline hunits)
    rw [hrest, Extent.run_cons_of_pos rfl, Extent.run_cons_of_pos (congrArg not hline),
      ← Nat.add_assoc]
    rfl
  | case5 cs => exact absurd .nil (h [] cs rfl)
  | case6 c cs _ _ hne hline => rw [Extent.run_cons_of_neg (congrArg not hline)]
  | case7 c cs hlone hpair hne hline ih =>
    rw [Bool.not_eq_true] at hline
    have hescape := ne_backslash hlone hpair
    have hrest := ih fun body after heq hunits =>
      h (c :: body) after (by rw [heq]; rfl) (.plain hne hescape hline hunits)
    rw [hrest, Extent.run_cons_of_pos (congrArg not hline)]
    rfl

end Literal

namespace Lexeme

theorem measure_quoted {form : LiteralForm} {cs : List Char}
    (hform : form = .character ∨ form = .string ∧ ¬['"', '"'] <+: cs) :
    measure (form.quote :: cs) =
      (if (Literal.content form.quote cs).1 then form.closedShape else form.openShape,
        1 + (Literal.content form.quote cs).2) := by
  rcases hform with rfl | ⟨rfl, hquotes⟩
  · rfl
  · refine scanDouble_of_ne fun rest hrest => hquotes ⟨rest, ?_⟩
    rw [hrest]
    rfl

end Lexeme

namespace Reader

open Literal (Units)

/-- **Where a literal in quotes ends.** Units and the quote behind them are the whole literal.
If there are none, the literal lacks its end and reaches up to the end of the line. -/
theorem read_quoted (front rest : String) {form : LiteralForm}
    (hform : form = .character ∨ form = .string ∧ ¬['"', '"'] <+: rest.toList) :
    let l := (openAt (front ++ (String.singleton form.quote ++ rest)) front.utf8ByteSize).lexeme
    (∀ body after, rest.toList = body ++ form.quote :: after → Units form.quote body →
        l = ⟨form.closedShape, form.quote :: (body ++ [form.quote])⟩) ∧
      ((∀ body after, rest.toList = body ++ form.quote :: after → ¬Units form.quote body) →
        l = ⟨form.openShape, form.quote :: rest.toList.takeWhile (!isLineEnd ·)⟩) ∧
      l.length = Text.byteSize l.text := by
  intro l
  have hl : l = Lexeme.first (form.quote :: rest.toList) := by
    have htext : (String.singleton form.quote ++ rest).toList = form.quote :: rest.toList := by
      rw [String.toList_append, String.toList_singleton, List.singleton_append]
    show (openAt _ _).lexeme = _
    rw [lexeme_openAt_append, htext]
  have hmeasure := Lexeme.measure_quoted hform
  refine ⟨fun body after hrest hunits => ?_, fun hnone => ?_, ?_⟩
  · have hsplit : form.quote :: rest.toList = (form.quote :: (body ++ [form.quote])) ++ after := by
      rw [hrest, List.cons_append, List.append_assoc]
      rfl
    rw [hl, hsplit]
    apply Lexeme.first_of_measure_eq
    rw [← hsplit, hmeasure, hrest, Literal.content_of_units form.quote_ne_backslash hunits]
    simp [Nat.add_comm 1]
  · let line := rest.toList.takeWhile (!isLineEnd ·)
    have hsplit : form.quote :: rest.toList =
        (form.quote :: line) ++ rest.toList.dropWhile (!isLineEnd ·) := by
      rw [List.cons_append, List.takeWhile_append_dropWhile]
    rw [hl, hsplit]
    apply Lexeme.first_of_measure_eq
    rw [← hsplit, hmeasure, Literal.content_of_not_units hnone, List.length_cons, Nat.add_comm]
    rfl
  · rw [hl, Lexeme.length_first]

/-- An escaped quote stays inside, and the quote behind the two backslashes ends the string. -/
theorem read_quoted_escapes :
    Units '"' ['a', '\\', '"', '\\', '\\'] ∧
      (openAt ("x = " ++ (String.singleton '"' ++ "a\\\"\\\\\";")) 4).lexeme =
        ⟨.string, ['"', 'a', '\\', '"', '\\', '\\', '"']⟩ := by
  have hunits : Units '"' ['a', '\\', '"', '\\', '\\'] :=
    .plain (by decide) (by decide) rfl (.escape rfl (.escape rfl .nil))
  have hread := @read_quoted "x = " "a\\\"\\\\\";" .string (.inr ⟨rfl, by decide⟩)
  exact ⟨hunits, hread.1 _ [';'] (by decide) hunits⟩

end Reader

end JavaHighlight
