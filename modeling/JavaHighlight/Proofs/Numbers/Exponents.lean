import JavaHighlight.Proofs.Numbers.Literals
import Mathlib.Data.List.Basic

/-!
# Exponents

The letter of an exponent is part of a decimal number in two cases: behind whole digits if a
digit follows it, perhaps behind a sign, and behind a point whatever follows. So behind a point a
number may end with the letter or with a sign that belongs to what follows, as in `1.5e+y`
(`exponent_without_digits`); in all other numbers there is a digit behind the letter
(`decimal_exponent`).

The proof cuts the text of a number in front of its exponent: no letter of exponents stands in
front of the cut (`Number.Cut`), and behind it the exponent is measured on its own.
-/

namespace JavaHighlight

namespace Number

open Extent

variable {front scale text rest cs : List Char} {p : Char → Bool}

/-- Whether a digit comes next, perhaps behind a sign. -/
def powerStarts (cs : List Char) : Bool :=
  startsWithDigit (cs.drop (one isSign cs))

/-! ## Texts without letters of exponents -/

def Unmarked (cs : List Char) : Prop :=
  ∀ c ∈ cs, isDecimalExponentMark c = false

theorem unmarked_nil : Unmarked [] :=
  List.forall_mem_nil _

theorem Unmarked.append {a b : List Char} (ha : Unmarked a) (hb : Unmarked b) : Unmarked (a ++ b) :=
  List.forall_mem_append.mpr ⟨ha, hb⟩

theorem Unmarked.notMem {mark : Char} (h : Unmarked cs)
    (hmark : isDecimalExponentMark mark = true) : mark ∉ cs := by
  intro hmem
  rw [h mark hmem] at hmark
  cases hmark

theorem unmarked_of_forall (hlower : p 'e' = false) (hupper : p 'E' = false)
    (h : ∀ c ∈ cs, p c = true) : Unmarked cs := by
  intro c hc
  by_contra hmark
  simp only [isDecimalExponentMark, Bool.not_eq_false, Bool.or_eq_true, decide_eq_true_eq] at hmark
  have hpc := h c hc
  rcases hmark with rfl | rfl
  · rw [hlower] at hpc; cases hpc
  · rw [hupper] at hpc; cases hpc

theorem unmarked_digits (h : Takes digits cs rest) : Unmarked cs :=
  unmarked_of_forall (p := isDigitPart) rfl rfl h.of_run.1

theorem unmarked_one (hlower : p 'e' = false) (hupper : p 'E' = false)
    (h : Takes (one p) cs rest) : Unmarked cs := by
  refine unmarked_of_forall hlower hupper ?_
  rcases h.of_one with ⟨rfl, -⟩ | ⟨c, hc, rfl⟩
  · exact List.forall_mem_nil _
  · exact List.forall_mem_singleton.mpr hc

/-! ## The exponent -/

theorem exists_cons_of_startsWithDigit (h : startsWithDigit cs = true) :
    ∃ d ds, cs = d :: ds ∧ d.isDigit = true := by
  cases cs with
  | nil => cases h
  | cons d ds => exact ⟨d, ds, rfl, h⟩

theorem startsWithDigit_of_halts (h : Halts isDigitPart cs) : startsWithDigit cs = false := by
  cases cs with
  | nil => rfl
  | cons c cs => exact (Bool.or_eq_false_iff.mp (h c rfl)).1

/-- Where the digits behind a sign end, the text of the number may end as well: whether a digit
comes next does not change. -/
theorem powerStarts_append {sign ds suffix : List Char}
    (hsign : Takes (one isSign) sign (ds ++ (suffix ++ rest)))
    (hds : Takes digits ds (suffix ++ rest)) :
    powerStarts (sign ++ (ds ++ suffix)) = powerStarts (sign ++ (ds ++ suffix) ++ rest) := by
  have hshort : Takes (one isSign) sign (ds ++ suffix) := by
    rcases hsign.of_one with ⟨rfl, hhalts⟩ | ⟨c, hc, rfl⟩
    · rw [← List.append_assoc] at hhalts
      exact takes_one_nil hhalts.of_append
    · exact takes_one hc _
  unfold powerStarts
  rw [hshort, List.drop_left, List.append_assoc, List.append_assoc, hsign, List.drop_left]
  cases ds with
  | cons d ds => rfl
  | nil =>
    have hhalts : Halts isDigitPart (suffix ++ rest) := hds.of_run.2
    exact (startsWithDigit_of_halts hhalts.of_append).trans
      (startsWithDigit_of_halts hhalts).symm

/-- An exponent and a suffix hold one letter of exponents at most, in front of everything else. -/
theorem scaling_cases (h : Takes scaling scale rest) :
    Unmarked scale ∨ ∃ mark back, scale = mark :: back ∧ isDecimalExponentMark mark = true ∧
      Unmarked back ∧ powerStarts back = powerStarts (back ++ rest) := by
  obtain ⟨power, suffix, rfl, hpower, hsuffix⟩ := h.of_followedBy
  have hplain : Unmarked suffix := unmarked_one rfl rfl hsuffix
  rcases hpower.of_thenIfPresent with ⟨rfl, -⟩ | ⟨marks, back, hne, rfl, hmarks, hback⟩
  · exact .inl hplain
  · obtain ⟨sign, ds, rfl, hsign, hds⟩ := hback.of_followedBy
    obtain ⟨mark, hmark, rfl⟩ := hmarks.of_one.resolve_left fun hnil => hne hnil.1
    refine .inr ⟨mark, sign ++ (ds ++ suffix), by simp, hmark, ?_, powerStarts_append hsign hds⟩
    exact (unmarked_one rfl rfl hsign).append ((unmarked_digits hds).append hplain)

/-! ## Cutting a number in front of its exponent -/

/-- The text of a decimal number, with what comes behind it. Either there is no letter of exponents
in it, or it is cut where the exponent starts. -/
inductive Cut : List Char → List Char → Prop
  | plain {text rest : List Char} (h : Unmarked text) : Cut text rest
  | scaled {front scale rest : List Char} (hfront : Unmarked front)
    (hscale : Takes scaling scale rest)
    (hstarts : '.' ∈ front ∨ exponentStarts (scale ++ rest) = true) : Cut (front ++ scale) rest

theorem Cut.prepend {whole : List Char} (hwhole : Unmarked whole) (h : Cut text rest) :
    Cut (whole ++ text) rest := by
  cases h with
  | plain h => exact .plain (hwhole.append h)
  | scaled hfront hscale hstarts =>
    rw [← List.append_assoc]
    exact .scaled (hwhole.append hfront) hscale (hstarts.imp_left (List.mem_append_right _))

theorem cut_of_afterPoint (h : Takes afterPoint text rest) : Cut ('.' :: text) rest := by
  obtain ⟨fraction, scale, rfl, hfraction, hscale⟩ := h.of_followedBy
  have hplain : Unmarked ('.' :: fraction) :=
    List.forall_mem_cons.mpr ⟨rfl, unmarked_digits hfraction⟩
  exact .scaled hplain hscale (.inl List.mem_cons_self)

theorem cut_of_behindDigits {radix : Radix}
    (h : (behindDigits radix (text ++ rest)).2 = text.length) : Cut text rest := by
  cases text with
  | nil => exact .plain unmarked_nil
  | cons c cs =>
    rw [List.cons_append, behindDigits] at h
    split_ifs at h with hpoint hstarts hsuffix
    · obtain rfl : c = '.' := of_decide_eq_true (Bool.and_eq_true_iff.mp hpoint).1
      rw [Nat.add_comm] at h
      exact cut_of_afterPoint (Nat.succ.inj h)
    · exact .scaled unmarked_nil h (.inr hstarts)
    · obtain rfl : cs = [] := List.length_eq_zero_iff.mp (Nat.succ.inj h.symm)
      exact .plain (unmarked_one rfl rfl (takes_one hsuffix rest))
    · have hlong : Takes (one isLongSuffix) (c :: cs) rest := h
      exact .plain (unmarked_one rfl rfl hlong)

theorem cut_of_decimal (h : (decimal (text ++ rest)).2 = text.length) : Cut text rest := by
  have hle : digits (text ++ rest) ≤ text.length := h ▸ digits_le_decimal _
  obtain ⟨whole, tail, rfl, hwhole, htail⟩ := exists_of_run_le hle
  rw [List.append_assoc, decimal_append hwhole htail, snd_behind, List.length_append,
    Nat.add_left_cancel_iff] at h
  exact (cut_of_behindDigits h).prepend (unmarked_digits (takes_run hwhole htail))

theorem Cut.powerStarts_back (h : Cut text rest) {back : List Char} {mark : Char}
    (htext : text = front ++ mark :: back) (hmark : isDecimalExponentMark mark = true) :
    powerStarts back = powerStarts (back ++ rest) ∧
      ('.' ∉ front → powerStarts back = true) := by
  have hmem : mark ∈ text := by simp [htext]
  cases h with
  | plain h => exact absurd hmem (h.notMem hmark)
  | scaled hfront hscale hstarts =>
    rcases scaling_cases hscale with hscale | ⟨m, post, rfl, -, hpost, hpower⟩
    · exact absurd hmem ((hfront.append hscale).notMem hmark)
    · obtain ⟨rfl, rfl, rfl⟩ := (List.append_cons_inj_of_notMem (hfront.notMem hmark)
        (hpost.notMem hmark)).mp htext
      refine ⟨hpower, fun hpoint => ?_⟩
      rw [hpower]
      exact (Bool.and_eq_true_iff.mp (hstarts.resolve_left hpoint)).2

/-! ## Decimal numbers among lexemes -/

/-- Whether a number is decimal, by how it starts. -/
def startsDecimal : List Char → Bool
  | '.' :: cs => startsWithDigit cs
  | '0' :: c :: _ => !isRadixMark c
  | cs => startsWithDigit cs

/-- Only behind a zero is there a letter that makes a number another than a decimal one, and then
it is part of the number. -/
theorem scan_eq_decimal_or (c : Char) (cs : List Char) :
    scan (c :: cs) = decimal (c :: cs) ∨ c = '0' ∧ 2 ≤ (scan (c :: cs)).2 := by
  rw [scan.eq_def]
  split
  · next d ds heq =>
    obtain ⟨rfl, rfl⟩ := List.cons.inj heq
    split_ifs
    · exact .inr ⟨rfl, Nat.le_add_right _ _⟩
    · exact .inr ⟨rfl, Nat.le_add_right _ _⟩
    · exact .inl rfl
  · exact .inl rfl

end Number

open Number Numeral

namespace Lexeme

theorem cut_of_measure {text rest : List Char} (hstarts : startsDecimal text = true)
    (h : (measure (text ++ rest)).2 = text.length) : Cut text rest := by
  rw [startsDecimal.eq_def] at hstarts
  split at hstarts
  · next cs =>
    obtain ⟨d, ds, rfl, hdigit⟩ := exists_cons_of_startsWithDigit hstarts
    rw [List.cons_append, List.cons_append, measure_of_point (mem_decimalDigits_iff.mpr hdigit),
      snd_behind, Nat.add_comm] at h
    exact cut_of_afterPoint (Nat.succ.inj h)
  · next c cs =>
    have hhalts : Extent.Halts isRadixMark (c :: (cs ++ rest)) :=
      Extent.halts_cons ((Bool.not_eq_true' _).mp hstarts) _
    rw [List.cons_append, List.cons_append, measure_of_digit (by decide),
      scan_of_halts hhalts] at h
    exact cut_of_decimal h
  · next hzero =>
    obtain ⟨d, ds, rfl, hdigit⟩ := exists_cons_of_startsWithDigit hstarts
    rw [List.cons_append, measure_of_digit (mem_decimalDigits_iff.mpr hdigit)] at h
    rcases scan_eq_decimal_or d (ds ++ rest) with hdecimal | ⟨rfl, hlong⟩
    · rw [hdecimal] at h
      exact cut_of_decimal h
    · have hmore : ds ≠ [] := by
        rintro rfl
        rw [h] at hlong
        exact absurd hlong (by decide)
      obtain ⟨c, ds, rfl⟩ := List.exists_cons_of_ne_nil hmore
      exact absurd rfl (hzero c ds)

end Lexeme

/-- **A digit follows the letter of exponents in a decimal number**, perhaps behind a sign, unless
there is a point in front of the letter. Behind a point, a digit follows the letter in the number
exactly if one follows it in the text. -/
theorem decimal_exponent (source : String) (offset : Nat) {before after : List Lexeme}
    {l : Lexeme} (h : (Reader.openAt source offset).lexemes.1 = before ++ l :: after)
    (hdecimal : startsDecimal l.text = true) {front back : List Char} {mark : Char}
    (htext : l.text = front ++ mark :: back) (hmark : mark = 'e' ∨ mark = 'E') :
    ('.' ∉ front → powerStarts back = true) ∧
      powerStarts back = powerStarts (back ++ after.flatMap Lexeme.text) := by
  have hclass : isDecimalExponentMark mark = true := by rcases hmark with rfl | rfl <;> rfl
  have hne : l.text ≠ [] := by simp [htext]
  obtain ⟨rest, hmeasure, hafter⟩ := Lexeme.measure_of_ofTextFrom_eq h hne
  have hcut : Cut l.text rest := Lexeme.cut_of_measure hdecimal (by rw [hmeasure])
  rw [hafter, Lexeme.flatMap_text_ofText]
  exact (hcut.powerStarts_back htext hclass).symm

theorem decimal_exponent_signed :
    (Reader.openAt "1e+3;" 0).lexemes.1 =
        [] ++ ⟨.float, "1e+3".toList⟩ :: [⟨.symbol .semicolon, [';']⟩] ∧
      powerStarts ['+', '3'] = true := by
  have hlexemes : (Reader.openAt "1e+3;" 0).lexemes.1 =
      [] ++ ⟨.float, "1e+3".toList⟩ :: [⟨.symbol .semicolon, [';']⟩] := by decide +kernel
  have htext : "1e+3".toList = ['1'] ++ 'e' :: ['+', '3'] := by decide
  exact ⟨hlexemes,
    (decimal_exponent "1e+3;" 0 hlexemes (by decide) htext (.inl rfl)).1 (by decide)⟩

/-- The sign in `1.5e+y` is an operator, and the number takes it up with the letter in front. -/
theorem exponent_without_digits :
    (Reader.openAt "1.5e+y" 0).lexemes.1 =
        [] ++ ⟨.float, "1.5e+".toList⟩ :: [⟨.word, ['y']⟩] ∧
      startsDecimal "1.5e+".toList = true ∧ "1.5e+".toList = ['1', '.', '5'] ++ 'e' :: ['+'] ∧
      powerStarts ['+'] = false := by
  decide +kernel

end JavaHighlight
