import JavaHighlight.Lexeme.Tiling
import JavaHighlight.Proofs.Lines.Terminated
import Mathlib.Tactic.SplitIfs

/-!
# What is measured on its line

The end of a word, a number, a literal in quotes or a symbol is found in front of the end of
the line, and neither the terminator nor what follows it matters (`StopsAtLineEnd`). So nothing
changes if the text is cut off behind the terminator, in front of it, or within it
(`StopsAtLineEnd.append`).
-/

namespace JavaHighlight

namespace Text

theorem eq_of_isLineEnd {c : Char} (h : isLineEnd c = true) : c = '\n' ∨ c = '\r' := by
  simpa [isLineEnd] using h

/-- Line ends are none of the characters of a class. -/
def WithinLines (p : Char → Bool) : Prop :=
  p '\n' = false ∧ p '\r' = false

instance (p : Char → Bool) : Decidable (WithinLines p) :=
  inferInstanceAs (Decidable (p '\n' = false ∧ p '\r' = false))

theorem WithinLines.eq_false {p : Char → Bool} (hp : WithinLines p) {c : Char}
    (hc : isLineEnd c = true) : p c = false := by
  rcases eq_of_isLineEnd hc with rfl | rfl
  · exact hp.1
  · exact hp.2

/-! ## Borders at the end of a line -/

/-- The border between two texts is at the end of a line: behind a terminator, in front of one, or
within one. -/
def AtLineEnd (u v : List Char) : Prop :=
  (∃ c ∈ u.getLast?, isLineEnd c = true) ∨ ∃ c ∈ v.head?, isLineEnd c = true

theorem AtLineEnd.of_isLineEnd {c : Char} (hc : isLineEnd c = true) (u v : List Char) :
    AtLineEnd u (c :: v) :=
  .inr ⟨c, rfl, hc⟩

theorem AtLineEnd.tail {c : Char} {u v : List Char} (h : AtLineEnd (c :: u) v)
    (hc : isLineEnd c = false) : AtLineEnd u v := by
  rcases h with ⟨d, hd, hend⟩ | h
  · cases u with
    | nil =>
      obtain rfl : c = d := Option.some.inj hd
      rw [hc] at hend
      cases hend
    | cons e u =>
      rw [List.getLast?_cons_cons] at hd
      exact .inl ⟨d, hd, hend⟩
  · exact .inr h

theorem AtLineEnd.of_nil {v : List Char} (h : AtLineEnd [] v) :
    ∃ c cs, v = c :: cs ∧ isLineEnd c = true := by
  rcases h with ⟨c, hc, -⟩ | ⟨c, hc, hend⟩
  · cases hc
  · obtain ⟨cs, rfl⟩ := List.head?_eq_some_iff.mp hc
    exact ⟨c, cs, rfl, hend⟩

theorem AtLineEnd.exists_cons {u v ds : List Char} {d : Char} (h : AtLineEnd u v)
    (huv : u ++ v = d :: ds) (hd : isLineEnd d = false) : ∃ ds', u = d :: ds' := by
  cases u with
  | nil =>
    obtain ⟨c, cs, rfl, hc⟩ := h.of_nil
    obtain ⟨rfl, -⟩ := List.cons.inj huv
    rw [hd] at hc
    cases hc
  | cons c u =>
    obtain ⟨rfl, -⟩ := List.cons.inj huv
    exact ⟨u, rfl⟩

/-- In front of a border there is nothing, or the border is at the end of a line. -/
def LineBorder (u v : List Char) : Prop :=
  u = [] ∨ AtLineEnd u v

theorem LineBorder.atLineEnd {u v : List Char} (h : LineBorder u v) (hne : u ≠ []) :
    AtLineEnd u v :=
  h.resolve_left hne

theorem LineBorder.of_append {a b v : List Char} (h : LineBorder (a ++ b) v) : LineBorder b v := by
  by_cases hb : b = []
  · exact .inl hb
  · rcases h with hnil | ⟨c, hc, hend⟩ | h
    · exact .inl (List.append_eq_nil_iff.mp hnil).2
    · rw [List.getLast?_append, List.getLast?_eq_some_getLast hb, Option.some_or,
        ← List.getLast?_eq_some_getLast hb] at hc
      exact .inr (.inl ⟨c, hc, hend⟩)
    · exact .inr (.inr h)

theorem LineBorder.of_suffix {x u v : List Char} (h : LineBorder u v) (hx : x <:+ u) :
    LineBorder x v := by
  obtain ⟨w, rfl⟩ := hx
  exact h.of_append

theorem LineBorder.drop {u v : List Char} (h : LineBorder u v) (n : Nat) :
    LineBorder (u.drop n) v :=
  h.of_suffix (List.drop_suffix n u)

theorem LineBorder.tail {c : Char} {u v : List Char} (h : LineBorder (c :: u) v) :
    LineBorder u v :=
  h.drop 1

theorem EndsLine.lineBorder {u : List Char} (h : EndsLine u) (v : List Char) : LineBorder u v := by
  by_cases hne : u = []
  · exact .inl hne
  · have hlast := List.getLast?_eq_some_getLast hne
    exact .inr (.inl ⟨_, hlast, h _ hlast⟩)

theorem EndsLine.of_suffix {x u : List Char} (h : EndsLine u) (hx : x <:+ u) : EndsLine x := by
  obtain ⟨w, rfl⟩ := hx
  exact h.of_append

end Text

open Text (AtLineEnd isLineEnd)

/-- What a function makes of a text is settled in front of the first line end. -/
def StopsAtLineEnd {α : Type} (f : List Char → α) : Prop :=
  ∀ (u : List Char) ⦃c : Char⦄, isLineEnd c = true → ∀ v, f (u ++ c :: v) = f u

/-- What follows the end of a line does not matter, nor does its terminator. -/
theorem StopsAtLineEnd.append {α : Type} {f : List Char → α} (hf : StopsAtLineEnd f)
    {u v : List Char} (h : AtLineEnd u v) : f (u ++ v) = f u := by
  rcases h with ⟨c, hc, hend⟩ | ⟨c, hc, hend⟩
  · obtain ⟨w, rfl⟩ := List.getLast?_eq_some_iff.mp hc
    calc f (w ++ [c] ++ v) = f (w ++ c :: v) := by rw [List.append_assoc, List.singleton_append]
      _ = f w := hf w hend v
      _ = f (w ++ [c]) := (hf w hend []).symm
  · obtain ⟨w, rfl⟩ := List.head?_eq_some_iff.mp hc
    exact hf u hend w

/-! ## Extents -/

namespace Extent

variable {p : Char → Bool} {first second : Extent}

theorem stopsAtLineEnd_run (hp : Text.WithinLines p) : StopsAtLineEnd (run p) := by
  intro u c hc v
  induction u with
  | nil => exact run_cons_of_neg (hp.eq_false hc) v
  | cons d u ih =>
    by_cases hd : p d = true
    · rw [List.cons_append, run_cons_of_pos hd, run_cons_of_pos hd, ih]
    · rw [Bool.not_eq_true] at hd
      rw [List.cons_append, run_cons_of_neg hd, run_cons_of_neg hd]

theorem stopsAtLineEnd_one (hp : Text.WithinLines p) : StopsAtLineEnd (one p) := by
  intro u c hc v
  cases u with
  | nil => rw [List.nil_append, one, one, hp.eq_false hc, if_neg Bool.false_ne_true]
  | cons d u => rfl

theorem drop_append (h : StopsAtLineEnd first) (hbounded : Bounded first) (u : List Char)
    {c : Char} (hc : isLineEnd c = true) (v : List Char) :
    (u ++ c :: v).drop (first (u ++ c :: v)) = u.drop (first u) ++ c :: v := by
  rw [h u hc v, List.drop_append_of_le_length (hbounded u)]

theorem stopsAtLineEnd_followedBy (h₁ : StopsAtLineEnd first) (hbounded : Bounded first)
    (h₂ : StopsAtLineEnd second) : StopsAtLineEnd (first.followedBy second) := by
  intro u c hc v
  unfold followedBy
  rw [drop_append h₁ hbounded u hc v, h₁ u hc v, h₂ _ hc v]

theorem stopsAtLineEnd_thenIfPresent (h₁ : StopsAtLineEnd first) (hbounded : Bounded first)
    (h₂ : StopsAtLineEnd second) : StopsAtLineEnd (first.thenIfPresent second) := by
  intro u c hc v
  unfold thenIfPresent
  rw [h₁ u hc v, stopsAtLineEnd_followedBy h₁ hbounded h₂ u hc v]

end Extent

/-! ## Literals in quotes -/

namespace Literal

theorem content_cons {c : Char} (hc : c ≠ '\\') (quote : Char) (cs : List Char) :
    content quote (c :: cs) =
      if c = quote then (true, 1) else if isLineEnd c then (false, 0)
      else behind 1 (content quote cs) := by
  rw [content]
  · exact fun h _ => hc h
  · exact fun _ _ h _ => hc h

/-- The clause for other characters applies to none that a backslash could be. -/
theorem ne_backslash {c : Char} {cs : List Char} (hlone : c = '\\' → cs = [] → False)
    (hpair : ∀ d ds, c = '\\' → cs = d :: ds → False) : c ≠ '\\' := by
  rintro rfl
  cases cs with
  | nil => exact hlone rfl rfl
  | cons d ds => exact hpair d ds rfl rfl

theorem stopsAtLineEnd_content {quote : Char} (hquote : isLineEnd quote = false) :
    StopsAtLineEnd (content quote) := by
  intro u c hc v
  have hne : ∀ {d : Char}, isLineEnd d = false → c ≠ d := by
    rintro d hd rfl
    rw [hc] at hd
    cases hd
  fun_induction content quote u with
  | case1 =>
    rw [List.nil_append, content_cons (hne rfl), if_neg (hne hquote), if_pos hc]
  | case2 => exact if_pos hc
  | case3 d cs hd => exact if_pos hd
  | case4 d cs hd ih =>
    rw [List.cons_append, List.cons_append, content, if_neg hd, ih]
  | case5 cs hnil hcons =>
    rw [List.cons_append, content_cons (ne_backslash hnil hcons), if_pos rfl]
  | case6 d cs hnil hcons hd hend =>
    rw [List.cons_append, content_cons (ne_backslash hnil hcons), if_neg hd, if_pos hend]
  | case7 d cs hnil hcons hd hend ih =>
    rw [List.cons_append, content_cons (ne_backslash hnil hcons), if_neg hd, if_neg hend, ih]

end Literal

/-! ## Numbers -/

namespace Number

open Extent

theorem stopsAtLineEnd_digits : StopsAtLineEnd digits :=
  stopsAtLineEnd_run (by decide)

theorem stopsAtLineEnd_hexDigits : StopsAtLineEnd hexDigits :=
  stopsAtLineEnd_run (by decide)

theorem stopsAtLineEnd_exponent {isMark : Char → Bool} (h : Text.WithinLines isMark) :
    StopsAtLineEnd (exponent isMark) :=
  stopsAtLineEnd_thenIfPresent (stopsAtLineEnd_one h) (bounded_one _)
    (stopsAtLineEnd_followedBy (stopsAtLineEnd_one (by decide)) (bounded_one _)
      stopsAtLineEnd_digits)

theorem stopsAtLineEnd_floatSuffix : StopsAtLineEnd (one isFloatSuffix) :=
  stopsAtLineEnd_one (by decide)

theorem stopsAtLineEnd_afterPoint : StopsAtLineEnd afterPoint :=
  stopsAtLineEnd_followedBy stopsAtLineEnd_digits bounded_digits
    (stopsAtLineEnd_followedBy (stopsAtLineEnd_exponent (by decide)) (bounded_exponent _)
      stopsAtLineEnd_floatSuffix)

theorem stopsAtLineEnd_hexFraction : StopsAtLineEnd hexFraction :=
  stopsAtLineEnd_thenIfPresent (stopsAtLineEnd_one (by decide)) (bounded_one _)
    stopsAtLineEnd_hexDigits

theorem stopsAtLineEnd_integer {extent : Extent} (h : StopsAtLineEnd extent)
    (hbounded : Bounded extent) (radix : Radix) : StopsAtLineEnd (integer radix extent) := by
  intro u c hc v
  unfold integer
  rw [stopsAtLineEnd_followedBy h hbounded (stopsAtLineEnd_one (by decide)) u hc v]

theorem stopsAtLineEnd_float {extent : Extent} (h : StopsAtLineEnd extent)
    (hbounded : Bounded extent) : StopsAtLineEnd (float extent) := by
  intro u c hc v
  unfold float
  rw [stopsAtLineEnd_followedBy h hbounded stopsAtLineEnd_floatSuffix u hc v]

theorem stopsAtLineEnd_startsWithDigit : StopsAtLineEnd startsWithDigit := by
  intro u c hc v
  cases u with
  | nil => rcases Text.eq_of_isLineEnd hc with rfl | rfl <;> rfl
  | cons d u => rfl

theorem stopsAtLineEnd_pointContinues : StopsAtLineEnd pointContinues := by
  intro u c hc v
  cases u with
  | nil => rcases Text.eq_of_isLineEnd hc with rfl | rfl <;> rfl
  | cons d u => rfl

theorem stopsAtLineEnd_exponentStarts : StopsAtLineEnd exponentStarts := by
  intro u c hc v
  have hsign : StopsAtLineEnd (one isSign) := stopsAtLineEnd_one (by decide)
  cases u with
  | nil => rcases Text.eq_of_isLineEnd hc with rfl | rfl <;> rfl
  | cons d u =>
    rw [List.cons_append, exponentStarts, exponentStarts,
      drop_append hsign (bounded_one _) u hc v, stopsAtLineEnd_startsWithDigit _ hc v]

theorem stopsAtLineEnd_hexadecimal : StopsAtLineEnd hexadecimal := by
  intro u c hc v
  have hbroken : StopsAtLineEnd (hexFraction.followedBy (exponent isBinaryExponentMark)) :=
    stopsAtLineEnd_followedBy stopsAtLineEnd_hexFraction bounded_hexFraction
      (stopsAtLineEnd_exponent (by decide))
  have hfloat := stopsAtLineEnd_float
    (stopsAtLineEnd_followedBy stopsAtLineEnd_hexDigits bounded_hexDigits hbroken)
    (bounded_hexDigits.followedBy (bounded_hexFraction.followedBy (bounded_exponent _)))
  unfold hexadecimal
  dsimp only
  rw [drop_append stopsAtLineEnd_hexDigits bounded_hexDigits u hc v, hbroken _ hc v,
    stopsAtLineEnd_integer stopsAtLineEnd_hexDigits bounded_hexDigits _ u hc v, hfloat u hc v]

theorem stopsAtLineEnd_wholeRadix (whole : Nat) :
    StopsAtLineEnd fun cs => decimal.wholeRadix cs whole := by
  intro u c hc v
  cases u with
  | nil => rcases Text.eq_of_isLineEnd hc with rfl | rfl <;> rfl
  | cons d u => rfl

theorem stopsAtLineEnd_decimal : StopsAtLineEnd decimal := by
  intro u c hc v
  have hradix := stopsAtLineEnd_wholeRadix (digits u) u hc v
  have hinteger := stopsAtLineEnd_integer stopsAtLineEnd_digits bounded_digits
    (decimal.wholeRadix u (digits u)) u hc v
  have hexponent : StopsAtLineEnd (exponent isDecimalExponentMark) :=
    stopsAtLineEnd_exponent (by decide)
  have hfloat := stopsAtLineEnd_float
    (stopsAtLineEnd_followedBy stopsAtLineEnd_digits bounded_digits hexponent)
    (bounded_digits.followedBy (bounded_exponent _)) u hc v
  unfold decimal
  dsimp only at hradix ⊢
  rw [drop_append stopsAtLineEnd_digits bounded_digits u hc v, stopsAtLineEnd_digits u hc v,
    hradix, hinteger, hfloat]
  -- Behind the digits the line ends, or it goes on with a character that both texts have.
  cases hrest : u.drop (digits u) with
  | nil =>
    rcases Text.eq_of_isLineEnd hc with rfl | rfl <;> rfl
  | cons d rest =>
    have hstarts := stopsAtLineEnd_exponentStarts (d :: rest) hc v
    rw [List.cons_append] at hstarts ⊢
    dsimp only
    rw [stopsAtLineEnd_pointContinues rest hc v, stopsAtLineEnd_afterPoint rest hc v, hstarts]

theorem scan_of_head?_ne {cs : List Char} (h : cs.head? ≠ some '0') : scan cs = decimal cs := by
  unfold scan
  split
  · exact absurd rfl h
  · rfl

theorem stopsAtLineEnd_scan : StopsAtLineEnd scan := by
  intro u c hc v
  have hbinary : StopsAtLineEnd (integer .binary (run isBinaryPart)) :=
    stopsAtLineEnd_integer (stopsAtLineEnd_run (by decide)) (bounded_run _) _
  by_cases hzero : u.head? = some '0'
  · obtain ⟨tail, rfl⟩ := List.head?_eq_some_iff.mp hzero
    have hdecimal := stopsAtLineEnd_decimal ('0' :: tail) hc v
    cases tail with
    | nil => rcases Text.eq_of_isLineEnd hc with rfl | rfl <;> exact hdecimal
    | cons d cs =>
      have hhead : (cs ++ c :: v).head?.any isBinaryPart = cs.head?.any isBinaryPart := by
        cases cs with
        | nil => rcases Text.eq_of_isLineEnd hc with rfl | rfl <;> rfl
        | cons e cs => rfl
      simp only [List.cons_append, scan] at hdecimal ⊢
      rw [hhead, hdecimal, stopsAtLineEnd_hexadecimal cs hc v, hbinary cs hc v]
  · have hzero' : (u ++ c :: v).head? ≠ some '0' := by
      cases u with
      | nil => rcases Text.eq_of_isLineEnd hc with rfl | rfl <;> simp
      | cons d cs => exact hzero
    rw [scan_of_head?_ne hzero, scan_of_head?_ne hzero']
    exact stopsAtLineEnd_decimal u hc v

end Number

/-! ## Symbols -/

/-- Whether a text starts with characters that end no line is decided on its line. -/
theorem Text.stopsAtLineEnd_isPrefixOf {front : List Char}
    (hfront : front.all (!isLineEnd ·) = true) : StopsAtLineEnd front.isPrefixOf := by
  intro u c hc v
  induction front generalizing u with
  | nil => rw [List.isPrefixOf, List.isPrefixOf]
  | cons d front ih =>
    rw [List.all_cons, Bool.and_eq_true, Bool.not_eq_true'] at hfront
    cases u with
    | nil =>
      have hne : d ≠ c := by
        rintro rfl
        rw [hc] at hfront
        cases hfront.1
      show (d == c && front.isPrefixOf v) = false
      rw [beq_eq_false_iff_ne.mpr hne, Bool.false_and]
    | cons e u => rw [List.cons_append, List.isPrefixOf, List.isPrefixOf, ih hfront.2]

namespace Symbol

theorem all_spelling (s : Symbol) : s.spelling.toList.all (!isLineEnd ·) = true := by
  have key : ∀ s ∈ all, s.spelling.toList.all (!isLineEnd ·) = true := by decide
  exact key s s.mem_all

theorem stopsAtLineEnd_longest? : StopsAtLineEnd longest? := by
  intro u c hc v
  refine longest?_congr fun s => ?_
  unfold startsText
  rw [Text.stopsAtLineEnd_isPrefixOf s.all_spelling u hc v]

end Symbol

end JavaHighlight
