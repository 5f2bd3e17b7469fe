import JavaHighlight.Lexeme.Number
import Mathlib.Tactic.ByContra
import Mathlib.Tactic.SplitIfs

/-!
# The parts of numbers

How far a part of a number reaches depends on nothing behind it but the character that comes
next (`Extent.Halts`), so the parts of a number are measured one by one (`Extent.Takes`). Behind
its whole digits a decimal number goes on with a point, an exponent or a suffix
(`Number.decimal_append`).
-/

namespace JavaHighlight

namespace Extent

variable {p q : Char → Bool} {first second : Extent} {u v rest : List Char}

/-- A text does not start with a character that satisfies `p`. -/
def Halts (p : Char → Bool) (cs : List Char) : Prop :=
  ∀ c ∈ cs.head?, p c = false

theorem Halts.append (hu : Halts p u) (hv : Halts p v) : Halts p (u ++ v) := by
  cases u with
  | nil => exact hv
  | cons c u => exact hu

theorem Halts.append_of_ne_nil (hu : Halts p u) (hne : u ≠ []) (v : List Char) :
    Halts p (u ++ v) := by
  obtain ⟨c, cs, rfl⟩ := List.exists_cons_of_ne_nil hne
  exact hu

theorem Halts.of_append (h : Halts p (u ++ v)) : Halts p u := by
  cases u with
  | nil => rintro c ⟨⟩
  | cons c u => exact h

theorem Halts.mono (h : Halts p u) (hpq : ∀ c, q c = true → p c = true) : Halts q u := by
  intro c hc
  have hp := h c hc
  rw [← Bool.not_eq_true] at hp ⊢
  exact mt (hpq c) hp

theorem halts_cons {c : Char} (h : p c = false) (cs : List Char) : Halts p (c :: cs) := by
  rintro d ⟨⟩
  exact h

/-- In front of `rest`, an extent reaches over `u` and no further. -/
def Takes (e : Extent) (u rest : List Char) : Prop :=
  e (u ++ rest) = u.length

theorem takes_run (hu : ∀ c ∈ u, p c = true) (hrest : Halts p rest) : Takes (run p) u rest := by
  have hnone : rest.takeWhile p = [] := by
    cases rest with
    | nil => rfl
    | cons c rest =>
      exact List.takeWhile_cons_of_neg (Bool.not_eq_true _ ▸ hrest c rfl)
  unfold Takes run
  rw [List.takeWhile_append_of_pos hu, hnone, List.append_nil]

theorem takes_one {c : Char} (hc : p c = true) (rest : List Char) : Takes (one p) [c] rest :=
  if_pos hc

theorem takes_one_nil (hrest : Halts p rest) : Takes (one p) [] rest := by
  cases rest with
  | nil => rfl
  | cons c rest => exact if_neg (Bool.not_eq_true _ ▸ hrest c rfl)

theorem followedBy_assoc (first second third : Extent) :
    (first.followedBy second).followedBy third =
      first.followedBy (second.followedBy third) := by
  funext cs
  unfold followedBy
  rw [List.drop_drop, Nat.add_assoc]

theorem Takes.followedBy_eq (h : Takes first u rest) (second : Extent) :
    first.followedBy second (u ++ rest) = u.length + second rest := by
  unfold Takes at h
  rw [Extent.followedBy, h, List.drop_left]

theorem Takes.followedBy (hfirst : Takes first u (v ++ rest)) (hsecond : Takes second v rest) :
    Takes (first.followedBy second) (u ++ v) rest := by
  unfold Takes at hsecond ⊢
  rw [List.append_assoc, hfirst.followedBy_eq, hsecond, List.length_append]

theorem Takes.thenIfPresent (hfirst : Takes first u (v ++ rest)) (hu : u ≠ [])
    (hsecond : Takes second v rest) : Takes (first.thenIfPresent second) (u ++ v) rest := by
  have hpresent : first (u ++ v ++ rest) ≠ 0 := by
    rw [List.append_assoc, hfirst]
    exact mt List.length_eq_zero_iff.mp hu
  exact (if_neg hpresent).trans (hfirst.followedBy hsecond)

theorem Takes.thenIfPresent_nil (hfirst : Takes first [] rest) :
    Takes (first.thenIfPresent second) [] rest :=
  if_pos hfirst

/-! ## What was taken -/

theorem exists_takes {e : Extent} (h : Bounded e) (cs : List Char) :
    ∃ u v, cs = u ++ v ∧ Takes e u v := by
  refine ⟨cs.take (e cs), cs.drop (e cs), (List.take_append_drop _ _).symm, ?_⟩
  unfold Takes
  rw [List.take_append_drop, List.length_take_of_le (h cs)]

/-- The characters with which a text is known to start are part of a text that is long enough. -/
theorem exists_of_front {front ds : List Char} (h : front ++ ds = u ++ rest)
    (hle : front.length ≤ u.length) : ∃ tail, u = front ++ tail ∧ ds = tail ++ rest := by
  obtain ⟨tail, rfl⟩ := List.prefix_of_prefix_length_le (List.prefix_append front ds)
    (h ▸ List.prefix_append u rest) hle
  rw [List.append_assoc, List.append_right_inj] at h
  exact ⟨tail, rfl, h⟩

theorem Takes.of_run (h : Takes (run p) u rest) : (∀ c ∈ u, p c = true) ∧ Halts p rest := by
  have htaken : (u ++ rest).takeWhile p = u :=
    (List.prefix_of_prefix_length_le (List.takeWhile_prefix p) (List.prefix_append u rest)
      (Nat.le_of_eq h)).eq_of_length h
  have hu : ∀ c ∈ u, p c = true := by
    rw [← List.all_eq_true, ← htaken]
    exact List.all_takeWhile
  refine ⟨hu, fun c hc => ?_⟩
  rw [List.takeWhile_append_of_pos hu, List.append_right_eq_self] at htaken
  obtain ⟨cs, rfl⟩ := List.head?_eq_some_iff.mp hc
  by_contra hp
  rw [List.takeWhile_cons_of_pos (Bool.of_not_eq_false hp)] at htaken
  exact List.cons_ne_nil _ _ htaken

theorem exists_of_run_le (h : run p (u ++ rest) ≤ u.length) :
    ∃ whole tail, u = whole ++ tail ∧ (∀ c ∈ whole, p c = true) ∧ Halts p (tail ++ rest) := by
  obtain ⟨whole, behind, hcs, hwhole⟩ := exists_takes (bounded_run p) (u ++ rest)
  have hlength : run p (u ++ rest) = whole.length := hcs ▸ hwhole
  obtain ⟨tail, rfl, rfl⟩ := exists_of_front hcs.symm (hlength ▸ h)
  exact ⟨whole, tail, rfl, hwhole.of_run⟩

theorem Takes.of_one (h : Takes (one p) u rest) :
    u = [] ∧ Halts p rest ∨ ∃ c, p c = true ∧ u = [c] := by
  unfold Takes at h
  cases u with
  | nil =>
    refine .inl ⟨rfl, fun c hc => ?_⟩
    obtain ⟨cs, rfl⟩ := List.head?_eq_some_iff.mp hc
    rw [List.nil_append, one] at h
    by_contra hp
    rw [if_pos (Bool.of_not_eq_false hp)] at h
    cases h
  | cons c u =>
    rw [List.cons_append, one, List.length_cons] at h
    split_ifs at h with hp
    · exact .inr ⟨c, hp, by rw [List.length_eq_zero_iff.mp (by omega : u.length = 0)]⟩

theorem Takes.of_followedBy {w : List Char} (h : Takes (first.followedBy second) w rest) :
    ∃ u v, w = u ++ v ∧ Takes first u (v ++ rest) ∧ Takes second v rest := by
  unfold Takes Extent.followedBy at h
  have hle : first (w ++ rest) ≤ w.length := by omega
  refine ⟨w.take (first (w ++ rest)), w.drop (first (w ++ rest)),
    (List.take_append_drop _ _).symm, ?_, ?_⟩
  · unfold Takes
    rw [← List.append_assoc, List.take_append_drop, List.length_take_of_le hle]
  · unfold Takes
    rw [List.drop_append_of_le_length hle] at h
    rw [List.length_drop]
    omega

theorem Takes.of_thenIfPresent {w : List Char} (h : Takes (first.thenIfPresent second) w rest) :
    w = [] ∧ Takes first [] rest ∨
      ∃ u v, u ≠ [] ∧ w = u ++ v ∧ Takes first u (v ++ rest) ∧ Takes second v rest := by
  unfold Takes Extent.thenIfPresent at h
  split_ifs at h with hzero
  · obtain rfl := List.length_eq_zero_iff.mp h.symm
    exact .inl ⟨rfl, hzero⟩
  · obtain ⟨u, v, rfl, hu, hv⟩ := Takes.of_followedBy h
    refine .inr ⟨u, v, ?_, rfl, hu, hv⟩
    rintro rfl
    exact hzero (by rw [List.append_assoc]; exact hu)

end Extent

namespace Number

open Extent

/-! ## Decimal numbers -/

/-- A character in front of which a point is not part of a number. -/
def detachesPoint (c : Char) : Bool :=
  c = '.' || !(isDecimalExponentMark c || isFloatSuffix c || c.isDigit || !isAsciiWordPart c)

theorem pointContinues_of_halts {cs : List Char} (h : Halts detachesPoint cs) :
    pointContinues cs = true := by
  cases cs with
  | nil => rfl
  | cons c cs =>
    obtain ⟨hpoint, hword⟩ := Bool.or_eq_false_iff.mp (h c rfl)
    rw [pointContinues, if_neg (of_decide_eq_false hpoint)]
    exact (Bool.not_eq_false' ..).mp hword

/-- A character of words that, behind the zero with which a number starts, makes it no decimal
number. -/
def isRadixMark (c : Char) : Bool :=
  c = 'x' || c = 'X' || c = 'b' || c = 'B'

theorem scan_of_halts {c : Char} {cs : List Char} (h : Halts isRadixMark cs) :
    scan (c :: cs) = decimal (c :: cs) := by
  rw [scan.eq_def]
  split
  · next d ds heq =>
    obtain ⟨rfl, rfl⟩ := List.cons.inj heq
    have hmark := h d rfl
    simp only [isRadixMark, Bool.or_eq_false_iff, decide_eq_false_iff_not] at hmark
    rw [if_neg (by simp [hmark]), if_neg (by simp [hmark])]
  · rfl

def scaling : Extent :=
  (exponent isDecimalExponentMark).followedBy (one isFloatSuffix)

/-- What a decimal number is and how far it reaches behind its whole digits, which are to be read
in the given radix unless they are part of a floating number. -/
def behindDigits (radix : Radix) : List Char → Shape × Nat
  | [] => (.integer radix, 0)
  | c :: cs =>
    if c = '.' && pointContinues cs then (.float, 1 + afterPoint cs)
    else if exponentStarts (c :: cs) then (.float, scaling (c :: cs))
    else if isFloatSuffix c then (.float, 1)
    else (.integer radix, one isLongSuffix (c :: cs))

theorem decimal_append {whole tail : List Char} (hwhole : ∀ c ∈ whole, isDigitPart c = true)
    (htail : Halts isDigitPart tail) :
    decimal (whole ++ tail) =
      behind whole.length
        (behindDigits (decimal.wholeRadix (whole ++ tail) whole.length) tail) := by
  have hdigits : Takes digits whole tail := takes_run hwhole htail
  have hlength : digits (whole ++ tail) = whole.length := hdigits
  simp only [decimal, integer, float, followedBy_assoc, hdigits.followedBy_eq, hlength,
    List.drop_left]
  cases tail with
  | nil => rfl
  | cons c rest =>
    simp only [behindDigits, scaling]
    split_ifs <;> simp only [behind, Nat.add_assoc]

section

variable {radix : Radix} {c : Char} {cs : List Char}

theorem behindDigits_of_halts (hpoint : Halts (· = '.') cs)
    (hmark : Halts isDecimalExponentMark cs) (hsuffix : Halts isFloatSuffix cs) :
    behindDigits radix cs = (.integer radix, one isLongSuffix cs) := by
  cases cs with
  | nil => rfl
  | cons c cs =>
    simp [behindDigits, exponentStarts, hpoint c rfl, hmark c rfl, hsuffix c rfl]

theorem behindDigits_point (h : pointContinues cs = true) :
    behindDigits radix ('.' :: cs) = (.float, 1 + afterPoint cs) := by
  simp [behindDigits, h]

theorem behindDigits_exponent (h : exponentStarts cs = true) :
    behindDigits radix cs = (.float, scaling cs) := by
  cases cs with
  | nil => cases h
  | cons c cs =>
    have hpoint : c ≠ '.' := by rintro rfl; cases h
    simp [behindDigits, h, hpoint]

theorem behindDigits_suffix (h : isFloatSuffix c = true) :
    behindDigits radix (c :: cs) = (.float, 1) := by
  have hother : c ≠ '.' ∧ isDecimalExponentMark c = false := by
    have hletters := h
    simp only [isFloatSuffix, Bool.or_eq_true, decide_eq_true_eq] at hletters
    rcases hletters with ((rfl | rfl) | rfl) | rfl <;> decide
  simp [behindDigits, exponentStarts, hother, h]

end

/-! ## Hexadecimal and binary numbers -/

theorem scan_hexadecimal {mark : Char} (hmark : mark ∈ ['x', 'X']) (cs : List Char) :
    scan ('0' :: mark :: cs) = behind 2 (hexadecimal cs) :=
  if_pos (by simpa using hmark)

theorem scan_binary {mark c : Char} (hmark : mark ∈ ['b', 'B']) (hc : isBinaryPart c = true)
    (cs : List Char) :
    scan ('0' :: mark :: c :: cs) = behind 2 (integer .binary (run isBinaryPart) (c :: cs)) := by
  have hbinary : ((mark = 'b' || mark = 'B') && (c :: cs).head?.any isBinaryPart) = true := by
    simpa [hc] using hmark
  have hhex : ¬(mark = 'x' || mark = 'X') = true :=
    List.any_eq_false.mp (rfl : ['b', 'B'].any (fun c => c = 'x' || c = 'X') = false) mark hmark
  rw [scan, if_neg hhex, if_pos hbinary]

/-- What follows the hexadecimal digits of a floating number, up to the suffix. -/
def broken : Extent :=
  hexFraction.followedBy (exponent isBinaryExponentMark)

theorem hexadecimal_append {whole tail : List Char} (hwhole : ∀ c ∈ whole, isHexPart c = true)
    (htail : Halts isHexPart tail) :
    hexadecimal (whole ++ tail) =
      behind whole.length
        (if broken tail = 0 then (.integer .hexadecimal, one isLongSuffix tail)
        else float broken tail) := by
  have hdigits : Takes hexDigits whole tail := takes_run hwhole htail
  have hlength : hexDigits (whole ++ tail) = whole.length := hdigits
  have hbroken : hexFraction.followedBy (exponent isBinaryExponentMark) = broken := rfl
  simp only [hexadecimal, integer, float, followedBy_assoc, hdigits.followedBy_eq, hlength,
    List.drop_left]
  simp only [← followedBy_assoc, hbroken]
  split_ifs <;> rfl

end Number

end JavaHighlight
