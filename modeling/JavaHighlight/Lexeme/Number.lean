import JavaHighlight.Lexeme.Alphabet
import JavaHighlight.Lexeme.Extent
import JavaHighlight.Lexeme.Shape

/-!
# Numbers

An integer or floating literal, measured from its first digit or from the point in front of
it. A literal need not be well formed to be one lexeme: digits may be missing where the
notation asks for them, and what follows the number is looked at only to tell where it ends.
-/

namespace JavaHighlight.Number

open Extent

def digits : Extent :=
  run isDigitPart

def hexDigits : Extent :=
  run isHexPart

/-- An exponent: its mark, a sign if there is one, and the digits behind them, if any. -/
def exponent (isMark : Char → Bool) : Extent :=
  (one isMark).thenIfPresent ((one isSign).followedBy digits)

/-- What may stand behind the point of a decimal number. -/
def afterPoint : Extent :=
  digits.followedBy ((exponent isDecimalExponentMark).followedBy (one isFloatSuffix))

/-- Whether a point behind digits belongs to the number, judged by what follows it. In `1...`
and `1.toString` it does not; in `1.`, `1.5` and `1.e3` it does. -/
def pointContinues : List Char → Bool
  | [] => true
  | c :: _ =>
    if c = '.' then false
    else isDecimalExponentMark c || isFloatSuffix c || c.isDigit || !isAsciiWordPart c

def startsWithDigit (cs : List Char) : Bool :=
  cs.head?.any Char.isDigit

/-- Whether an exponent with at least one digit starts here. Behind whole digits only such an
exponent belongs to the number. -/
def exponentStarts : List Char → Bool
  | [] => false
  | c :: cs => isDecimalExponentMark c && startsWithDigit (cs.drop (one isSign cs))

/-- An integer as far as `extent` reaches, with the suffix that makes it long. -/
def integer (radix : Radix) (extent : Extent) (cs : List Char) : Shape × Nat :=
  (.integer radix, extent.followedBy (one isLongSuffix) cs)

/-- A floating number as far as `extent` reaches, with the suffix that gives its width. -/
def float (extent : Extent) (cs : List Char) : Shape × Nat :=
  (.float, extent.followedBy (one isFloatSuffix) cs)

def hexFraction : Extent :=
  (one (· = '.')).thenIfPresent hexDigits

/-- A hexadecimal number, measured behind its `0x`. A point or a power of two makes it floating. -/
def hexadecimal (cs : List Char) : Shape × Nat :=
  let broken := hexFraction.followedBy (exponent isBinaryExponentMark)
  if broken (cs.drop (hexDigits cs)) = 0 then integer .hexadecimal hexDigits cs
  else float (hexDigits.followedBy broken) cs

/-- A number written with decimal digits. A leading zero with more digits makes it octal. -/
def decimal (cs : List Char) : Shape × Nat :=
  let whole := digits cs
  match cs.drop whole with
  | [] => integer (wholeRadix cs whole) digits cs
  | c :: rest =>
    if c = '.' && pointContinues rest then (.float, whole + 1 + afterPoint rest)
    else if exponentStarts (c :: rest) then
      float (digits.followedBy (exponent isDecimalExponentMark)) cs
    else if isFloatSuffix c then (.float, whole + 1)
    else integer (wholeRadix cs whole) digits cs
where
  /-- The radix of a number without a mark for it. -/
  wholeRadix (cs : List Char) (whole : Nat) : Radix :=
    if cs.head? = some '0' && 1 < whole then .octal else .decimal

/-- The number at the start of a text that starts with a digit. -/
def scan : List Char → Shape × Nat
  | '0' :: c :: cs =>
    if c = 'x' || c = 'X' then behind 2 (hexadecimal cs)
    else if (c = 'b' || c = 'B') && cs.head?.any isBinaryPart then
      behind 2 (integer .binary (run isBinaryPart) cs)
    else decimal ('0' :: c :: cs)
  | cs => decimal cs

/-- The number at the start of a text that starts with a point and a digit, measured behind
the point. -/
def scanFraction (cs : List Char) : Shape × Nat :=
  (.float, afterPoint cs)

/-! ## A number stays within its text -/

theorem bounded_digits : Bounded digits :=
  bounded_run _

theorem bounded_hexDigits : Bounded hexDigits :=
  bounded_run _

theorem bounded_exponent (isMark : Char → Bool) : Bounded (exponent isMark) :=
  (bounded_one _).thenIfPresent ((bounded_one _).followedBy bounded_digits)

theorem bounded_hexFraction : Bounded hexFraction :=
  (bounded_one _).thenIfPresent bounded_hexDigits

theorem bounded_afterPoint : Bounded afterPoint :=
  bounded_digits.followedBy ((bounded_exponent _).followedBy (bounded_one _))

theorem integer_le {extent : Extent} (h : Bounded extent) (radix : Radix) (cs : List Char) :
    (integer radix extent cs).2 ≤ cs.length :=
  h.followedBy (bounded_one _) cs

theorem float_le {extent : Extent} (h : Bounded extent) (cs : List Char) :
    (float extent cs).2 ≤ cs.length :=
  h.followedBy (bounded_one _) cs

theorem hexadecimal_le (cs : List Char) : (hexadecimal cs).2 ≤ cs.length := by
  have hbroken := bounded_hexFraction.followedBy (bounded_exponent isBinaryExponentMark)
  simp only [hexadecimal]
  split
  · exact integer_le bounded_hexDigits _ cs
  · exact float_le (bounded_hexDigits.followedBy hbroken) cs

theorem decimal_le (cs : List Char) : (decimal cs).2 ≤ cs.length := by
  simp only [decimal]
  split
  · exact integer_le bounded_digits _ cs
  · next c rest hdrop =>
    have hlength := congrArg List.length hdrop
    rw [List.length_drop, List.length_cons] at hlength
    have hrest := bounded_afterPoint rest
    split
    · simp only; omega
    · split
      · exact float_le (bounded_digits.followedBy (bounded_exponent _)) cs
      · split
        · simp only; omega
        · exact integer_le bounded_digits _ cs

theorem scan_le (cs : List Char) : (scan cs).2 ≤ cs.length := by
  rw [scan.eq_def]
  split
  · next c cs =>
    simp only [List.length_cons]
    split
    · have := hexadecimal_le cs
      simp only [snd_behind]; omega
    · split
      · have := integer_le (bounded_run isBinaryPart) .binary cs
        simp only [snd_behind]; omega
      · exact decimal_le ('0' :: c :: cs)
  · exact decimal_le cs

theorem digits_le_decimal (cs : List Char) : digits cs ≤ (decimal cs).2 := by
  simp only [decimal]
  split
  · simp only [integer, Extent.followedBy]; omega
  · split
    · simp only; omega
    · split
      · simp only [float, Extent.followedBy]; omega
      · split
        · simp only; omega
        · simp only [integer, Extent.followedBy]; omega

theorem scan_pos {c : Char} (h : c.isDigit = true) (cs : List Char) : 0 < (scan (c :: cs)).2 := by
  have hdecimal : ∀ cs, 0 < (decimal (c :: cs)).2 := by
    intro cs
    have hdigits : 0 < digits (c :: cs) := by
      simp [digits, Extent.run, isDigitPart, h]
    exact Nat.lt_of_lt_of_le hdigits (digits_le_decimal _)
  rw [scan.eq_def]
  split
  · next d cs heq =>
    obtain ⟨rfl, -⟩ := List.cons.inj heq
    split
    · simp only [snd_behind]; omega
    · split
      · simp only [snd_behind]; omega
      · exact hdecimal _
  · exact hdecimal cs

end JavaHighlight.Number
