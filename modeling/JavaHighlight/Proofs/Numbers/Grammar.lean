import JavaHighlight.Lexeme.Shape

/-!
# The grammar of numeric literals

Integers in four radices, and floating numbers with a decimal or a hexadecimal significand. Each
part is a predicate on texts. Underscores stand between digits only, and between the leading zero
of an octal numeral and its digits.
-/

namespace JavaHighlight

namespace Numeral

def decimalDigits : List Char :=
  ['0', '1', '2', '3', '4', '5', '6', '7', '8', '9']

def octalDigits : List Char :=
  ['0', '1', '2', '3', '4', '5', '6', '7']

def binaryDigits : List Char :=
  ['0', '1']

def hexDigits : List Char :=
  decimalDigits ++ ['a', 'b', 'c', 'd', 'e', 'f', 'A', 'B', 'C', 'D', 'E', 'F']

/-- Digits, with underscores between them. -/
structure Digits (digits cs : List Char) : Prop where
  part : ∀ c ∈ cs, c = '_' ∨ c ∈ digits
  first : ∃ c ∈ digits, cs.head? = some c
  last : ∃ c ∈ digits, cs.getLast? = some c

theorem digits_iff_all {digits cs : List Char} :
    (cs.all (fun c => c = '_' || c ∈ digits) && digits.any (cs.head? = some ·) &&
      digits.any (cs.getLast? = some ·)) = true ↔ Digits digits cs := by
  simp only [Bool.and_eq_true, List.all_eq_true, List.any_eq_true, Bool.or_eq_true,
    decide_eq_true_eq]
  exact ⟨fun h => ⟨h.1.1, h.1.2, h.2⟩, fun h => ⟨⟨h.part, h.first⟩, h.last⟩⟩

instance (digits cs : List Char) : Decidable (Digits digits cs) :=
  decidable_of_iff _ digits_iff_all

def Letter (letters cs : List Char) : Prop :=
  ∃ c ∈ letters, cs = [c]

/-- A part that may be missing. -/
def Perhaps (P : List Char → Prop) (cs : List Char) : Prop :=
  cs = [] ∨ P cs

/-- The mark of an exponent, perhaps a sign, and decimal digits. -/
inductive Exponent (marks : List Char) : List Char → Prop
  | intro {mark : Char} {sign digits : List Char} (hmark : mark ∈ marks)
    (hsign : Perhaps (Letter ['+', '-']) sign) (hdigits : Digits decimalDigits digits) :
    Exponent marks (mark :: (sign ++ digits))

inductive Whole : Radix → List Char → Prop
  | zero : Whole .decimal ['0']
  | decimal {digits : List Char} (hdigits : Digits decimalDigits digits)
    (hhead : digits.head? ≠ some '0') : Whole .decimal digits
  | octal (underscores : Nat) {digits : List Char} (hdigits : Digits octalDigits digits) :
    Whole .octal ('0' :: (List.replicate underscores '_' ++ digits))
  | hexadecimal {mark : Char} {digits : List Char} (hmark : mark ∈ ['x', 'X'])
    (hdigits : Digits hexDigits digits) : Whole .hexadecimal ('0' :: mark :: digits)
  | binary {mark : Char} {digits : List Char} (hmark : mark ∈ ['b', 'B'])
    (hdigits : Digits binaryDigits digits) : Whole .binary ('0' :: mark :: digits)

/-- A power of ten and a suffix, of which either may be missing. -/
inductive Scale : List Char → Prop
  | intro {power suffix : List Char} (hpower : Perhaps (Exponent ['e', 'E']) power)
    (hsuffix : Perhaps (Letter ['f', 'F', 'd', 'D']) suffix) : Scale (power ++ suffix)

/-- Hexadecimal digits with a point in front of, between or behind them, or without one. -/
inductive HexSignificand : List Char → Prop
  | whole {digits : List Char} (hdigits : Digits hexDigits digits) : HexSignificand digits
  | pointBehind {digits : List Char} (hdigits : Digits hexDigits digits) :
    HexSignificand (digits ++ ['.'])
  | fraction {digits fraction : List Char} (hdigits : Perhaps (Digits hexDigits) digits)
    (hfraction : Digits hexDigits fraction) : HexSignificand (digits ++ '.' :: fraction)

inductive Floating : List Char → Prop
  | pointBehind {whole fraction scale : List Char} (hwhole : Digits decimalDigits whole)
    (hfraction : Perhaps (Digits decimalDigits) fraction) (hscale : Scale scale) :
    Floating (whole ++ '.' :: (fraction ++ scale))
  | pointInFront {fraction scale : List Char} (hfraction : Digits decimalDigits fraction)
    (hscale : Scale scale) : Floating ('.' :: (fraction ++ scale))
  | scaled {whole scale : List Char} (hwhole : Digits decimalDigits whole) (hscale : Scale scale)
    (hne : scale ≠ []) : Floating (whole ++ scale)
  | hexadecimal {mark : Char} {significand power suffix : List Char} (hmark : mark ∈ ['x', 'X'])
    (hsignificand : HexSignificand significand) (hpower : Exponent ['p', 'P'] power)
    (hsuffix : Perhaps (Letter ['f', 'F', 'd', 'D']) suffix) :
    Floating ('0' :: mark :: (significand ++ (power ++ suffix)))

end Numeral

open Numeral

/-- Numeric literals with the shapes of their lexemes. -/
inductive NumericLiteral : Shape → List Char → Prop
  | integer {radix : Radix} {whole suffix : List Char} (hwhole : Whole radix whole)
    (hsuffix : Perhaps (Letter ['l', 'L']) suffix) :
    NumericLiteral (.integer radix) (whole ++ suffix)
  | floating {cs : List Char} (h : Floating cs) : NumericLiteral .float cs

/-! ## The first character of a part -/

namespace Numeral

theorem mem_decimalDigits_iff {c : Char} : c ∈ decimalDigits ↔ c.isDigit = true := by
  refine ⟨fun h => List.all_eq_true.mp (rfl : decimalDigits.all Char.isDigit = true) c h,
    fun h => ?_⟩
  simp only [Char.isDigit, Bool.and_eq_true, decide_eq_true_eq, UInt32.le_iff_toNat_le] at h
  have hlower : 48 ≤ c.toNat := h.1
  have hupper : c.toNat ≤ 57 := h.2
  have key : ∀ n ≤ 57, 48 ≤ n → Char.ofNat n ∈ decimalDigits := by decide
  rw [← Char.ofNat_toNat c]
  exact key c.toNat hupper hlower

/-- A text is empty or starts with one of the given letters. -/
def StartsIn (letters cs : List Char) : Prop :=
  ∀ c ∈ cs.head?, c ∈ letters

variable {letters digits marks cs : List Char} {p : Char → Bool}

theorem Digits.startsIn (h : Digits digits cs) : StartsIn digits cs := by
  obtain ⟨d, hmem, hd⟩ := h.first
  intro c hc
  obtain rfl : d = c := Option.some.inj (hd.symm.trans hc)
  exact hmem

theorem Digits.exists_cons (h : Digits digits cs) : ∃ c ∈ digits, ∃ ds, cs = c :: ds := by
  obtain ⟨c, hmem, hc⟩ := h.first
  exact ⟨c, hmem, List.head?_eq_some_iff.mp hc⟩

theorem Digits.ne_nil (h : Digits digits cs) : cs ≠ [] := by
  obtain ⟨c, -, ds, rfl⟩ := h.exists_cons
  exact List.cons_ne_nil c ds

theorem Digits.forall (h : Digits digits cs) (hp : ('_' :: digits).all p = true) :
    ∀ c ∈ cs, p c = true :=
  fun c hc => List.all_eq_true.mp hp c (List.mem_cons.mpr (h.part c hc))

theorem Perhaps.forall (h : Perhaps (Digits digits) cs) (hp : ('_' :: digits).all p = true) :
    ∀ c ∈ cs, p c = true := by
  rcases h with rfl | h
  · exact List.forall_mem_nil _
  · exact h.forall hp

theorem Digits.decimal_of_octal (underscores : Nat) (h : Digits octalDigits cs) :
    Digits decimalDigits ('0' :: (List.replicate underscores '_' ++ cs)) := by
  have hsub : octalDigits ⊆ decimalDigits := (List.take_prefix 8 decimalDigits).subset
  obtain ⟨last, hmem, hlast⟩ := h.last
  refine ⟨?_, ⟨'0', by decide, rfl⟩, last, hsub hmem, ?_⟩
  · intro c hc
    rcases List.mem_cons.mp hc with rfl | hc
    · exact .inr (by decide)
    · rcases List.mem_append.mp hc with hc | hc
      · exact .inl (List.eq_of_mem_replicate hc)
      · exact (h.part c hc).imp_right (@hsub c)
  · rw [List.getLast?_cons, List.getLast?_append, hlast]
    rfl

theorem Whole.exists_cons {radix : Radix} (h : Whole radix cs) :
    ∃ c ∈ decimalDigits, ∃ ds, cs = c :: ds := by
  cases h with
  | decimal hdigits => exact hdigits.exists_cons
  | _ => exact ⟨'0', by decide, _, rfl⟩

theorem Floating.exists_cons (h : Floating cs) :
    (∃ c ∈ decimalDigits, ∃ ds, cs = c :: ds) ∨
      ∃ fraction scale, Digits decimalDigits fraction ∧ Scale scale ∧
        cs = '.' :: (fraction ++ scale) := by
  cases h with
  | pointBehind hwhole | scaled hwhole =>
    obtain ⟨c, hc, ds, rfl⟩ := hwhole.exists_cons
    exact .inl ⟨c, hc, _, rfl⟩
  | pointInFront hfraction hscale => exact .inr ⟨_, _, hfraction, hscale, rfl⟩
  | hexadecimal => exact .inl ⟨'0', by decide, _, rfl⟩

theorem Letter.startsIn (h : Letter letters cs) : StartsIn letters cs := by
  obtain ⟨d, hmem, rfl⟩ := h
  rintro c ⟨⟩
  exact hmem

theorem Exponent.startsIn (h : Exponent marks cs) : StartsIn marks cs := by
  cases h with
  | intro hmark =>
    rintro c ⟨⟩
    exact hmark

theorem Exponent.ne_nil (h : Exponent marks cs) : cs ≠ [] := by
  cases h
  exact List.cons_ne_nil _ _

theorem Perhaps.startsIn {P : List Char → Prop} (h : Perhaps P cs)
    (hP : P cs → StartsIn letters cs) : StartsIn letters cs := by
  rcases h with rfl | h
  · rintro c ⟨⟩
  · exact hP h

end Numeral

end JavaHighlight
