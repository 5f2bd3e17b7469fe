import JavaHighlight.Proofs.Numbers.Exponents

/-!
# Numbers on their own

A number that is followed by anything is the same number without it (`Number.scan_alone`).

The parts of a number end where they end also if the text behind them is cut off somewhere
(`Extent.CutStable`), since a character that might have gone on with the part is at most taken
away. The characters that a number asks about (`exponentStarts`) it takes up if the answer is yes.
Only what follows a point may stay outside (`pointContinues`), and a point at the end of a text
belongs to the number as well.
-/

namespace JavaHighlight

namespace Extent

variable {first second : Extent}

/-- What is taken does not change if the text behind it is cut off. -/
def CutStable (e : Extent) : Prop :=
  ∀ ⦃u v rest : List Char⦄, Takes e u (v ++ rest) → Takes e u v

theorem CutStable.alone {e : Extent} (h : CutStable e) {u rest : List Char}
    (htakes : Takes e u rest) : e u = u.length := by
  have hcut : Takes e u [] := h (v := []) htakes
  unfold Takes at hcut
  rwa [List.append_nil] at hcut

theorem cutStable_run (p : Char → Bool) : CutStable (run p) := by
  intro u v rest h
  obtain ⟨hu, hrest⟩ := h.of_run
  exact takes_run hu hrest.of_append

theorem cutStable_one (p : Char → Bool) : CutStable (one p) := by
  intro u v rest h
  rcases h.of_one with ⟨rfl, hrest⟩ | ⟨c, hc, rfl⟩
  · exact takes_one_nil hrest.of_append
  · exact takes_one hc v

theorem CutStable.followedBy (hfirst : CutStable first) (hsecond : CutStable second) :
    CutStable (first.followedBy second) := by
  intro u v rest h
  obtain ⟨a, b, rfl, ha, hb⟩ := h.of_followedBy
  rw [← List.append_assoc] at ha
  exact (hfirst ha).followedBy (hsecond hb)

theorem CutStable.thenIfPresent (hfirst : CutStable first) (hsecond : CutStable second) :
    CutStable (first.thenIfPresent second) := by
  intro u v rest h
  rcases h.of_thenIfPresent with ⟨rfl, hnone⟩ | ⟨a, b, hne, rfl, ha, hb⟩
  · exact (hfirst hnone).thenIfPresent_nil
  · rw [← List.append_assoc] at ha
    exact (hfirst ha).thenIfPresent hne (hsecond hb)

end Extent

namespace Number

open Extent

variable {c : Char} {u cs rest : List Char} {radix : Radix} {shape : Shape}

theorem cutStable_exponent (isMark : Char → Bool) : CutStable (exponent isMark) :=
  (cutStable_one _).thenIfPresent ((cutStable_one _).followedBy (cutStable_run _))

theorem cutStable_scaling : CutStable scaling :=
  (cutStable_exponent _).followedBy (cutStable_one _)

theorem cutStable_afterPoint : CutStable afterPoint :=
  (cutStable_run _).followedBy cutStable_scaling

theorem cutStable_broken : CutStable broken :=
  ((cutStable_one _).thenIfPresent (cutStable_run _)).followedBy (cutStable_exponent _)

/-! ## Decimal numbers -/

theorem pointContinues_alone (h : pointContinues (cs ++ rest) = true) :
    pointContinues cs = true := by
  cases cs with
  | nil => rfl
  | cons c cs => exact h

/-- An exponent that was taken up starts with its digits also without what is behind it. -/
theorem exponentStarts_alone (hscaling : Takes scaling (c :: cs) rest)
    (h : exponentStarts (c :: (cs ++ rest)) = true) : exponentStarts (c :: cs) = true := by
  obtain ⟨hmark, hpower⟩ := Bool.and_eq_true_iff.mp h
  rcases scaling_cases hscaling with hplain | ⟨mark, back, heq, -, -, hback⟩
  · rw [hplain c List.mem_cons_self] at hmark
    cases hmark
  · obtain ⟨rfl, rfl⟩ := List.cons.inj heq
    exact Bool.and_eq_true_iff.mpr ⟨hmark, hback.trans hpower⟩

theorem scaling_pos (h : exponentStarts cs = true) : 0 < scaling cs := by
  cases cs with
  | nil => cases h
  | cons c cs =>
    have hmark : one isDecimalExponentMark (c :: cs) = 1 := if_pos (Bool.and_eq_true_iff.mp h).1
    unfold scaling exponent Extent.followedBy Extent.thenIfPresent
    rw [hmark, if_neg Nat.one_ne_zero, Extent.followedBy, hmark]
    omega

theorem cases_of_takes_longSuffix (h : Takes (one isLongSuffix) u rest) :
    u = [] ∨ u = ['l'] ∨ u = ['L'] := by
  rcases h.of_one with ⟨rfl, -⟩ | ⟨c, hc, rfl⟩
  · exact .inl rfl
  · simpa [isLongSuffix] using hc

theorem behindDigits_nil (h : behindDigits radix rest = (shape, 0)) : shape = .integer radix := by
  cases rest with
  | nil => exact (Prod.mk.inj h).1.symm
  | cons c cs =>
    rw [behindDigits] at h
    split_ifs at h with hpoint hstarts hsuffix
    · have := (Prod.mk.inj h).2
      omega
    · have := scaling_pos hstarts
      have := (Prod.mk.inj h).2
      omega
    · cases h
    · exact (Prod.mk.inj h).1.symm

theorem behindDigits_alone (h : behindDigits radix (u ++ rest) = (shape, u.length)) :
    behindDigits radix u = (shape, u.length) := by
  cases u with
  | nil => rw [behindDigits_nil h]; rfl
  | cons c cs =>
    rw [List.cons_append, behindDigits] at h
    split_ifs at h with hpoint hstarts hsuffix
    · obtain ⟨hc, hcontinues⟩ := Bool.and_eq_true_iff.mp hpoint
      obtain rfl : c = '.' := of_decide_eq_true hc
      obtain ⟨rfl, hlength⟩ := Prod.mk.inj h
      rw [List.length_cons, Nat.add_comm] at hlength
      have hfraction : afterPoint cs = cs.length :=
        cutStable_afterPoint.alone (Nat.succ.inj hlength)
      rw [behindDigits_point (pointContinues_alone hcontinues), hfraction, Nat.add_comm]
      rfl
    · obtain ⟨rfl, hlength⟩ := Prod.mk.inj h
      have hscaling : Takes scaling (c :: cs) rest := hlength
      rw [behindDigits_exponent (exponentStarts_alone hscaling hstarts),
        cutStable_scaling.alone hscaling]
    · obtain ⟨rfl, hlength⟩ := Prod.mk.inj h
      obtain rfl : cs = [] := List.length_eq_zero_iff.mp (Nat.succ.inj hlength.symm)
      rw [behindDigits_suffix hsuffix]
      rfl
    · obtain ⟨rfl, hlength⟩ := Prod.mk.inj h
      have hlong : Takes (one isLongSuffix) (c :: cs) rest := hlength
      rcases cases_of_takes_longSuffix hlong with hnil | hlower | hupper
      · cases hnil
      · rw [hlower]; rfl
      · rw [hupper]; rfl

/-- Whether a number is octal is told by its digits. -/
theorem wholeRadix_append (whole tail : List Char) :
    decimal.wholeRadix (whole ++ tail) whole.length =
      decimal.wholeRadix whole whole.length := by
  cases whole with
  | nil => simp [decimal.wholeRadix]
  | cons c whole => rfl

theorem decimal_alone (h : decimal (u ++ rest) = (shape, u.length)) :
    decimal u = (shape, u.length) := by
  have hle : digits (u ++ rest) ≤ u.length := by
    have := digits_le_decimal (u ++ rest)
    rwa [h] at this
  obtain ⟨whole, tail, rfl, hwhole, hhalts⟩ := exists_of_run_le hle
  rw [List.append_assoc, decimal_append hwhole hhalts, wholeRadix_append, List.length_append,
    behind_eq_iff] at h
  rw [decimal_append hwhole hhalts.of_append, wholeRadix_append, List.length_append, behind_eq_iff]
  exact behindDigits_alone h

/-! ## Hexadecimal and binary numbers -/

theorem hexDigits_le_hexadecimal (cs : List Char) : hexDigits cs ≤ (hexadecimal cs).2 := by
  simp only [hexadecimal]
  split
  · exact Nat.le_add_right _ _
  · exact Nat.le_trans (Nat.le_add_right _ _) (Nat.le_add_right _ _)

theorem broken_of_takes_longSuffix (h : Takes (one isLongSuffix) u rest) : broken u = 0 := by
  rcases cases_of_takes_longSuffix h with rfl | rfl | rfl <;> rfl

/-- What is taken up behind the digits of a floating number is broken also on its own. -/
theorem broken_ne_zero (h : Takes (broken.followedBy (one isFloatSuffix)) u rest)
    (hne : broken (u ++ rest) ≠ 0) : broken u ≠ 0 := by
  obtain ⟨a, b, rfl, ha, -⟩ := h.of_followedBy
  have hcut : broken (a ++ b) = a.length := cutStable_broken ha
  rw [List.append_assoc, ha] at hne
  rwa [hcut]

theorem hexadecimal_alone (h : hexadecimal (u ++ rest) = (shape, u.length)) :
    hexadecimal u = (shape, u.length) := by
  have hle : hexDigits (u ++ rest) ≤ u.length := by
    have := hexDigits_le_hexadecimal (u ++ rest)
    rwa [h] at this
  obtain ⟨whole, tail, rfl, hwhole, hhalts⟩ := exists_of_run_le hle
  rw [List.append_assoc, hexadecimal_append hwhole hhalts, List.length_append, behind_eq_iff] at h
  rw [hexadecimal_append hwhole hhalts.of_append, List.length_append, behind_eq_iff]
  split_ifs at h with hbroken
  · obtain ⟨rfl, hlength⟩ := Prod.mk.inj h
    rw [if_pos (broken_of_takes_longSuffix hlength), (cutStable_one _).alone hlength]
  · obtain ⟨rfl, hlength⟩ := Prod.mk.inj h
    rw [if_neg (broken_ne_zero hlength hbroken), float,
      (cutStable_broken.followedBy (cutStable_one _)).alone hlength]

theorem integer_alone {extent : Extent} (hextent : CutStable extent)
    (h : integer radix extent (u ++ rest) = (shape, u.length)) :
    integer radix extent u = (shape, u.length) := by
  obtain ⟨rfl, hlength⟩ := Prod.mk.inj h
  rw [integer, (hextent.followedBy (cutStable_one _)).alone hlength]

theorem run_le_of_integer {p : Char → Bool}
    (h : integer radix (run p) (u ++ rest) = (shape, u.length)) : run p (u ++ rest) ≤ u.length := by
  have hlength : (run p).followedBy (one isLongSuffix) (u ++ rest) = u.length :=
    congrArg Prod.snd h
  rw [← hlength]
  exact Nat.le_add_right _ _

theorem any_head?_append {p : Char → Bool} (h : cs.head?.any p = true) (rest : List Char) :
    (cs ++ rest).head?.any p = true := by
  cases cs with
  | nil => cases h
  | cons c cs => exact h

theorem any_head?_alone {p q : Char → Bool} (hqp : ∀ c, q c = true → p c = true)
    (h : (u ++ rest).head?.any q = true) (hrun : run p (u ++ rest) ≤ u.length) :
    u.head?.any q = true := by
  cases u with
  | cons c u => exact h
  | nil =>
    obtain ⟨c, hhead, hc⟩ := (Option.any_eq_true _ _).mp h
    have hhalts : Halts p rest := (Takes.of_run (u := []) (Nat.le_zero.mp hrun)).2
    exact absurd (hqp c hc) (Bool.not_eq_true _ ▸ hhalts c hhead)

/-- Whether a digit follows the point shows in a fraction on its own. -/
theorem startsWithDigit_alone (h : startsWithDigit (cs ++ rest) = true)
    (hlength : afterPoint (cs ++ rest) = cs.length) : startsWithDigit cs = true := by
  refine any_head?_alone (p := isDigitPart) (fun c hc => by simp [isDigitPart, hc]) h ?_
  rw [← hlength]
  exact Nat.le_add_right _ _

/-- A number is the same number without what follows it. -/
theorem scan_alone (h : scan (c :: (cs ++ rest)) = (shape, cs.length + 1)) :
    scan (c :: cs) = (shape, cs.length + 1) := by
  cases cs with
  | nil =>
    rcases scan_eq_decimal_or c rest with hdecimal | ⟨-, hlong⟩
    · rw [scan_of_halts (fun _ hnil => by cases hnil)]
      exact decimal_alone (u := [c]) (hdecimal.symm.trans h)
    · rw [List.nil_append] at h
      rw [h, List.length_nil] at hlong
      omega
  | cons d ds =>
    by_cases hzero : c = '0'
    · subst hzero
      have hlength : (d :: ds).length + 1 = 2 + ds.length := Nat.add_comm ds.length 2
      rw [List.cons_append, scan] at h
      rw [scan]
      split_ifs at h with hhex hbinary
      · rw [hlength, behind_eq_iff] at h
        rw [if_pos hhex, hlength, behind_eq_iff]
        exact hexadecimal_alone h
      · rw [hlength, behind_eq_iff] at h
        obtain ⟨hmark, hdigits⟩ := Bool.and_eq_true_iff.mp hbinary
        have hstarts := any_head?_alone (fun _ hc => hc) hdigits (run_le_of_integer h)
        rw [if_neg hhex, if_pos (Bool.and_eq_true_iff.mpr ⟨hmark, hstarts⟩),
          hlength, behind_eq_iff]
        exact integer_alone (cutStable_run _) h
      · have hdecimal : ¬((d = 'b' || d = 'B') && ds.head?.any isBinaryPart) = true := by
          refine mt (fun hbinary => ?_) hbinary
          obtain ⟨hmark, hdigits⟩ := Bool.and_eq_true_iff.mp hbinary
          exact Bool.and_eq_true_iff.mpr ⟨hmark, any_head?_append hdigits rest⟩
        rw [if_neg hhex, if_neg hdecimal]
        exact decimal_alone (u := '0' :: d :: ds) h
    · have hhead : ∀ cs : List Char, (c :: cs).head? ≠ some '0' := fun cs heq =>
        hzero (Option.some.inj heq)
      rw [scan_of_head?_ne (hhead _)] at h ⊢
      exact decimal_alone h

end Number

end JavaHighlight
