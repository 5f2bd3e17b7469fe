import JavaHighlight.Proofs.Lines.Resumed
import JavaHighlight.Proofs.Numbers.Grammar
import JavaHighlight.Proofs.Numbers.Parts
import JavaHighlight.Proofs.Tiling.Scan

/-!
# Numeric literals

Every numeric literal of the grammar is read as one lexeme of its shape if neither a point nor a
character of words stands behind it (`NumericLiteral.read_as_lexeme`).

No part of a literal can go on with the character with which the next part starts, nor with what
stands behind the literal (`Numeral.Ends`). So each part is measured as the grammar has it.
-/

namespace JavaHighlight

namespace Numeral

open Extent (Halts Takes one run)

variable {letters digits marks fraction scale cs rest : List Char} {p isMark : Char → Bool}

/-! ## Where parts of literals end -/

theorem StartsIn.halts (h : StartsIn letters cs) (hp : letters.any p = false) : Halts p cs :=
  fun c hc => eq_false_of_ne_true (List.any_eq_false.mp hp c (h c hc))

theorem Scale.halts (h : Scale cs) (hp : (['e', 'E'] ++ ['f', 'F', 'd', 'D']).any p = false) :
    Halts p cs := by
  obtain ⟨hpower, hsuffix⟩ := h
  obtain ⟨hmarks, hletters⟩ := Bool.or_eq_false_iff.mp (List.any_append.symm.trans hp)
  exact ((hpower.startsIn Exponent.startsIn).halts hmarks).append
    ((hsuffix.startsIn Letter.startsIn).halts hletters)

/-- Neither a point nor a character of words comes next. -/
def Ends (rest : List Char) : Prop :=
  ∀ c ∈ rest.head?, isAsciiWordPart c = false ∧ c ≠ '.'

namespace Ends

theorem word (h : Ends rest) : Halts isAsciiWordPart rest :=
  fun c hc => (h c hc).1

theorem point (h : Ends rest) : Halts (· = '.') rest :=
  fun c hc => decide_eq_false (h c hc).2

theorem letterClass (h : Ends rest) (letters : List Char) (hp : ∀ c, p c = true → c ∈ letters)
    (hletters : letters.all isAsciiWordPart = true) : Halts p rest :=
  h.word.mono fun c hc => List.all_eq_true.mp hletters c (hp c hc)

theorem hexPart (h : Ends rest) : Halts isHexPart rest := by
  refine h.word.mono fun c hc => ?_
  have hlower : 'a' ≤ c ∧ c ≤ 'f' → c.isLower = true := fun ⟨hle, hge⟩ =>
    Bool.and_eq_true_iff.mpr
      ⟨decide_eq_true hle, decide_eq_true (Char.le_trans hge (by decide))⟩
  have hupper : 'A' ≤ c ∧ c ≤ 'F' → c.isUpper = true := fun ⟨hle, hge⟩ =>
    decide_eq_true ⟨hle, Char.le_trans hge (by decide)⟩
  have halpha : c.isAlpha = (c.isUpper || c.isLower) := rfl
  unfold isHexPart at hc
  unfold isAsciiWordPart Char.isAlphanum
  grind

theorem digitPart (h : Ends rest) : Halts isDigitPart rest :=
  h.hexPart.mono fun c hc => by unfold isDigitPart at hc; unfold isHexPart; grind

theorem binaryPart (h : Ends rest) : Halts isBinaryPart rest :=
  h.letterClass ['0', '1', '_'] (by simp [isBinaryPart, or_assoc]) rfl

theorem decimalMark (h : Ends rest) : Halts isDecimalExponentMark rest :=
  h.letterClass ['e', 'E'] (by simp [isDecimalExponentMark]) rfl

theorem binaryMark (h : Ends rest) : Halts isBinaryExponentMark rest :=
  h.letterClass ['p', 'P'] (by simp [isBinaryExponentMark]) rfl

theorem floatSuffix (h : Ends rest) : Halts isFloatSuffix rest :=
  h.letterClass ['f', 'F', 'd', 'D'] (by simp [isFloatSuffix, or_assoc]) rfl

theorem longSuffix (h : Ends rest) : Halts isLongSuffix rest :=
  h.letterClass ['l', 'L'] (by simp [isLongSuffix]) rfl

theorem radixMark (h : Ends rest) : Halts Number.isRadixMark rest :=
  h.letterClass ['x', 'X', 'b', 'B'] (by simp [Number.isRadixMark, or_assoc]) rfl

end Ends

/-! ## Parts of literals -/

theorem Perhaps.takes_one (h : Perhaps (Letter letters) cs) (hp : letters.all p = true)
    (hrest : Halts p rest) : Takes (one p) cs rest := by
  rcases h with rfl | ⟨c, hc, rfl⟩
  · exact Extent.takes_one_nil hrest
  · exact Extent.takes_one (List.all_eq_true.mp hp c hc) rest

theorem takes_floatSuffix (h : Perhaps (Letter ['f', 'F', 'd', 'D']) cs) (hrest : Ends rest) :
    Takes (one isFloatSuffix) cs rest :=
  h.takes_one rfl hrest.floatSuffix

theorem takes_sign {sign : List Char} (hsign : Perhaps (Letter ['+', '-']) sign)
    (hdigits : Digits decimalDigits digits) (rest : List Char) :
    Takes (one isSign) sign (digits ++ rest) := by
  have hhalts : Halts isSign digits := hdigits.startsIn.halts rfl
  exact hsign.takes_one rfl (hhalts.append_of_ne_nil hdigits.ne_nil rest)

theorem Exponent.takes (h : Exponent marks cs) (hmarks : marks.all isMark = true)
    (hrest : Halts isDigitPart rest) : Takes (Number.exponent isMark) cs rest := by
  obtain ⟨hmark, hsign, hdigits⟩ := h
  have hrun : Takes Number.digits _ rest := Extent.takes_run (hdigits.forall rfl) hrest
  exact (Extent.takes_one (List.all_eq_true.mp hmarks _ hmark) _).thenIfPresent
    (List.cons_ne_nil _ _) ((takes_sign hsign hdigits rest).followedBy hrun)

theorem Exponent.exponentStarts (h : Exponent ['e', 'E'] cs) (rest : List Char) :
    Number.exponentStarts (cs ++ rest) = true := by
  obtain ⟨hmark, hsign, hdigits⟩ := h
  obtain ⟨c, hc, ds, rfl⟩ := id hdigits.exists_cons
  have hmarks : ['e', 'E'].all isDecimalExponentMark = true := rfl
  rw [List.cons_append, List.append_assoc, Number.exponentStarts,
    List.all_eq_true.mp hmarks _ hmark, takes_sign hsign hdigits rest, List.drop_left]
  exact mem_decimalDigits_iff.mp hc

theorem Scale.takes (h : Scale cs) (hrest : Ends rest) : Takes Number.scaling cs rest := by
  obtain ⟨hpower, hsuffix⟩ := h
  have hstart := hsuffix.startsIn Letter.startsIn
  refine Takes.followedBy ?_ (takes_floatSuffix hsuffix hrest)
  rcases hpower with rfl | hpower
  · exact (Extent.takes_one_nil
      ((hstart.halts rfl).append hrest.decimalMark)).thenIfPresent_nil
  · exact hpower.takes rfl ((hstart.halts rfl).append hrest.digitPart)

theorem takes_afterPoint (hfraction : Perhaps (Digits decimalDigits) fraction)
    (hscale : Scale scale) (hrest : Ends rest) :
    Takes Number.afterPoint (fraction ++ scale) rest := by
  have hdigits : ∀ c ∈ fraction, isDigitPart c = true := hfraction.forall rfl
  exact (Extent.takes_run hdigits ((hscale.halts rfl).append hrest.digitPart)).followedBy
    (hscale.takes hrest)

theorem pointContinues (hfraction : Perhaps (Digits decimalDigits) fraction)
    (hscale : Scale scale) (hrest : Ends rest) :
    Number.pointContinues (fraction ++ scale ++ rest) = true := by
  refine Number.pointContinues_of_halts (.append (.append ?_ ?_) ?_)
  · exact (hfraction.startsIn Digits.startsIn).halts rfl
  · exact hscale.halts rfl
  · intro c hc
    obtain ⟨hword, hpoint⟩ := hrest c hc
    simp [Number.detachesPoint, hword, hpoint]

/-! ## Decimal numbers -/

/-- The radix of a numeral that is written with decimal digits only. -/
def radixOf (digits : List Char) : Radix :=
  if digits.head? = some '0' && 1 < digits.length then .octal else .decimal

/-- A number is decimal if it starts with decimal digits and no letter of another radix follows. -/
theorem Digits.scan (h : Digits decimalDigits digits) {tail : List Char}
    (hdigit : Halts isDigitPart tail) (hmark : Halts Number.isRadixMark tail) :
    Number.scan (digits ++ tail) =
      behind digits.length (Number.behindDigits (radixOf digits) tail) := by
  have hparts : ∀ c ∈ digits, isDigitPart c = true := h.forall rfl
  have hradix : Number.decimal.wholeRadix (digits ++ tail) digits.length = radixOf digits := by
    obtain ⟨c, -, ds, rfl⟩ := h.exists_cons
    rfl
  rw [← hradix, ← Number.decimal_append hparts hdigit]
  obtain ⟨c, -, ds, rfl⟩ := id h.exists_cons
  have hplain : ∀ d ∈ c :: ds, (!Number.isRadixMark d) = true := h.forall rfl
  refine Number.scan_of_halts (.append (fun d hd => ?_) hmark)
  exact (Bool.not_eq_true' _).mp (hplain d (List.mem_cons_of_mem c (List.mem_of_mem_head? hd)))

theorem behindDigits_integer {radix : Radix} {suffix : List Char}
    (hsuffix : Perhaps (Letter ['l', 'L']) suffix) (hrest : Ends rest) :
    Number.behindDigits radix (suffix ++ rest) = (.integer radix, suffix.length) := by
  have hstart := hsuffix.startsIn Letter.startsIn
  have htakes : Takes (one isLongSuffix) suffix rest :=
    hsuffix.takes_one rfl hrest.longSuffix
  have hpoint : Halts (· = '.') (suffix ++ rest) := (hstart.halts rfl).append hrest.point
  have hmark : Halts isDecimalExponentMark (suffix ++ rest) :=
    (hstart.halts rfl).append hrest.decimalMark
  have hfloat : Halts isFloatSuffix (suffix ++ rest) :=
    (hstart.halts rfl).append hrest.floatSuffix
  rw [← htakes]
  exact Number.behindDigits_of_halts hpoint hmark hfloat

theorem behindDigits_scaled {radix : Radix} (hscale : Scale scale) (hne : scale ≠ [])
    (hrest : Ends rest) :
    Number.behindDigits radix (scale ++ rest) = (.float, scale.length) := by
  have htakes := hscale.takes hrest
  obtain @⟨power, suffix, hpower, hsuffix⟩ := hscale
  rcases hpower with rfl | hpower
  · obtain ⟨c, hc, rfl⟩ := hsuffix.resolve_left hne
    have hletters : ['f', 'F', 'd', 'D'].all isFloatSuffix = true := rfl
    exact Number.behindDigits_suffix (List.all_eq_true.mp hletters c hc)
  · have hstarts : Number.exponentStarts (power ++ suffix ++ rest) = true := by
      rw [List.append_assoc]
      exact hpower.exponentStarts (suffix ++ rest)
    rw [Number.behindDigits_exponent hstarts, htakes]

/-! ## Hexadecimal numbers -/

theorem HexSignificand.takes (h : HexSignificand cs) :
    ∃ digits point, cs = digits ++ point ∧ (∀ c ∈ digits, isHexPart c = true) ∧
      Halts isHexPart point ∧ ∀ tail, Halts isHexPart tail → Halts (· = '.') tail →
        Takes Number.hexFraction point tail := by
  have hpart : ('_' :: hexDigits).all isHexPart = true := rfl
  cases h with
  | whole hdigits =>
    refine ⟨cs, [], (List.append_nil cs).symm, hdigits.forall hpart, ?_, fun tail _ hpoint => ?_⟩
    · rintro c ⟨⟩
    · exact (Extent.takes_one_nil hpoint).thenIfPresent_nil
  | pointBehind hdigits =>
    refine ⟨_, ['.'], rfl, hdigits.forall hpart, Extent.halts_cons rfl _, fun tail hhex _ => ?_⟩
    exact (Extent.takes_one rfl _).thenIfPresent (List.cons_ne_nil _ _)
      (Extent.takes_run (List.forall_mem_nil _) hhex)
  | @fraction digits fraction hdigits hfraction =>
    refine ⟨digits, '.' :: fraction, rfl, hdigits.forall hpart, Extent.halts_cons rfl _,
      fun tail hhex _ => ?_⟩
    exact (Extent.takes_one rfl _).thenIfPresent (List.cons_ne_nil _ _)
      (Extent.takes_run (hfraction.forall hpart) hhex)

theorem hexadecimal_integer {suffix : List Char} (h : Digits hexDigits digits)
    (hsuffix : Perhaps (Letter ['l', 'L']) suffix) (hrest : Ends rest) :
    Number.hexadecimal (digits ++ (suffix ++ rest)) =
      (.integer .hexadecimal, digits.length + suffix.length) := by
  have hstart := hsuffix.startsIn Letter.startsIn
  have hpoint : Takes Number.hexFraction [] (suffix ++ rest) :=
    (Extent.takes_one_nil ((hstart.halts rfl).append hrest.point)).thenIfPresent_nil
  have hpower : Takes (Number.exponent isBinaryExponentMark) [] (suffix ++ rest) :=
    (Extent.takes_one_nil ((hstart.halts rfl).append hrest.binaryMark)).thenIfPresent_nil
  have hbroken : Takes Number.broken [] (suffix ++ rest) :=
    Takes.followedBy (u := []) (v := []) hpoint hpower
  have hnone : Number.broken (suffix ++ rest) = 0 := hbroken
  have hlong : Takes (one isLongSuffix) suffix rest :=
    hsuffix.takes_one rfl hrest.longSuffix
  rw [Number.hexadecimal_append (h.forall rfl)
    ((hstart.halts rfl).append hrest.hexPart), if_pos hnone, hlong]
  rfl

theorem hexadecimal_float {significand power suffix : List Char}
    (hsignificand : HexSignificand significand) (hpower : Exponent ['p', 'P'] power)
    (hsuffix : Perhaps (Letter ['f', 'F', 'd', 'D']) suffix) (hrest : Ends rest) :
    Number.hexadecimal (significand ++ (power ++ suffix) ++ rest) =
      (.float, (significand ++ (power ++ suffix)).length) := by
  obtain ⟨digits, point, rfl, hdigits, hpoint, hfraction⟩ := hsignificand.takes
  have hstart := hsuffix.startsIn Letter.startsIn
  have hmark : ∀ {p : Char → Bool}, ['p', 'P'].any p = false →
      Halts p (power ++ (suffix ++ rest)) :=
    fun hp => (hpower.startsIn.halts hp).append_of_ne_nil hpower.ne_nil _
  have hpowerTakes : Takes (Number.exponent isBinaryExponentMark) power (suffix ++ rest) :=
    hpower.takes rfl ((hstart.halts rfl).append hrest.digitPart)
  have hbroken : Takes Number.broken (point ++ power) (suffix ++ rest) :=
    (hfraction _ (hmark rfl) (hmark rfl)).followedBy hpowerTakes
  have hnonzero : Number.broken (point ++ power ++ (suffix ++ rest)) ≠ 0 := by
    rw [hbroken]
    exact mt List.length_eq_zero_iff.mp (List.append_ne_nil_of_right_ne_nil _ hpower.ne_nil)
  have hfloat := hbroken.followedBy (takes_floatSuffix hsuffix hrest)
  have htail : Halts isHexPart (point ++ (power ++ (suffix ++ rest))) :=
    hpoint.append (hmark rfl)
  calc Number.hexadecimal (digits ++ point ++ (power ++ suffix) ++ rest)
      = Number.hexadecimal (digits ++ (point ++ power ++ (suffix ++ rest))) := by
        simp only [List.append_assoc]
    _ = behind digits.length (Number.float Number.broken (point ++ power ++ (suffix ++ rest))) := by
        rw [Number.hexadecimal_append hdigits (by rwa [List.append_assoc]), if_neg hnonzero]
    _ = (.float, (digits ++ point ++ (power ++ suffix)).length) := by
        rw [Number.float, ← List.append_assoc, hfloat]
        simp only [behind, List.length_append, Nat.add_assoc]

/-! ## Literals -/

theorem scan_integer {radix : Radix} {whole suffix : List Char} (h : Whole radix whole)
    (hsuffix : Perhaps (Letter ['l', 'L']) suffix) (hrest : Ends rest) :
    Number.scan (whole ++ (suffix ++ rest)) =
      (.integer radix, whole.length + suffix.length) := by
  have hstart := hsuffix.startsIn Letter.startsIn
  have hwritten : Digits decimalDigits whole → Number.scan (whole ++ (suffix ++ rest)) =
      (.integer (radixOf whole), whole.length + suffix.length) := by
    intro hdigits
    rw [hdigits.scan ((hstart.halts rfl).append hrest.digitPart)
      ((hstart.halts rfl).append hrest.radixMark), behindDigits_integer hsuffix hrest]
    rfl
  cases h with
  | zero => exact hwritten (by decide)
  | decimal hdigits hhead =>
    rw [hwritten hdigits, radixOf, if_neg (by simp [hhead])]
  | octal underscores hdigits =>
    have hmore := List.length_pos_iff.mpr hdigits.ne_nil
    rw [hwritten (hdigits.decimal_of_octal underscores), radixOf, if_pos (by simp; omega)]
  | hexadecimal hmark hdigits =>
    rw [List.cons_append, List.cons_append, Number.scan_hexadecimal hmark,
      hexadecimal_integer hdigits hsuffix hrest]
    simp only [behind, List.length_cons, Prod.mk.injEq, true_and]
    omega
  | @binary mark digits hmark hdigits =>
    have htakes : Takes (run isBinaryPart) digits (suffix ++ rest) :=
      Extent.takes_run (hdigits.forall rfl)
        ((hstart.halts rfl).append hrest.binaryPart)
    have hlong : Takes (one isLongSuffix) suffix rest :=
      hsuffix.takes_one rfl hrest.longSuffix
    have hscan : Number.scan ('0' :: mark :: (digits ++ (suffix ++ rest))) =
        behind 2 (Number.integer .binary (run isBinaryPart) (digits ++ (suffix ++ rest))) := by
      obtain ⟨c, hc, ds, rfl⟩ := hdigits.exists_cons
      have hfirst : binaryDigits.all isBinaryPart = true := rfl
      exact Number.scan_binary hmark (List.all_eq_true.mp hfirst c hc) _
    rw [List.cons_append, List.cons_append, hscan, Number.integer, htakes.followedBy_eq, hlong]
    simp only [behind, List.length_cons, Prod.mk.injEq, true_and]
    omega

theorem scan_floating (h : Floating cs) (hhead : cs.head? ≠ some '.') (hrest : Ends rest) :
    Number.scan (cs ++ rest) = (.float, cs.length) := by
  cases h with
  | @pointBehind whole fraction scale hwhole hfraction hscale =>
    have hafter := takes_afterPoint hfraction hscale hrest
    have hgoes := pointContinues hfraction hscale hrest
    rw [List.append_assoc, List.cons_append,
      hwhole.scan (Extent.halts_cons rfl _) (Extent.halts_cons rfl _),
      Number.behindDigits_point hgoes, hafter]
    simp only [behind, List.length_append, List.length_cons, Prod.mk.injEq, true_and]
    omega
  | pointInFront => exact absurd rfl hhead
  | @scaled whole scale hwhole hscale hne =>
    rw [List.append_assoc, hwhole.scan ((hscale.halts rfl).append hrest.digitPart)
      ((hscale.halts rfl).append hrest.radixMark), behindDigits_scaled hscale hne hrest,
      List.length_append]
    rfl
  | hexadecimal hmark hsignificand hpower hsuffix =>
    rw [List.cons_append, List.cons_append, Number.scan_hexadecimal hmark,
      hexadecimal_float hsignificand hpower hsuffix hrest]
    simp only [behind, List.length_cons, Prod.mk.injEq, true_and]
    omega

end Numeral

open Numeral

theorem isWordPart_of_isAsciiWordPart {c : Char} (h : isAsciiWordPart c = true) :
    isWordPart c = true := by
  unfold isAsciiWordPart Char.isAlphanum at h
  unfold isWordPart isWordStart Unicode.isAlphabetic Unicode.isNumeric
  grind

namespace Lexeme

theorem measure_of_digit {c : Char} (hc : c ∈ decimalDigits) (cs : List Char) :
    measure (c :: cs) = Number.scan (c :: cs) := by
  have hother : decimalDigits.any
      (fun c => isBlank c || isWordStart c || c = '"' || c = '\'' || c = '/') = false := by
    decide +kernel
  have hc' := List.any_eq_false.mp hother c hc
  simp only [Bool.or_eq_true, decide_eq_true_eq, not_or] at hc'
  obtain ⟨⟨⟨⟨hblank, hword⟩, hdouble⟩, hsingle⟩, hslash⟩ := hc'
  rw [measure_eq_measurePlain hdouble hsingle fun h => absurd h hslash, measurePlain,
    if_neg hblank, if_neg hword, if_pos (mem_decimalDigits_iff.mp hc)]

theorem measure_of_point {c : Char} (hc : c ∈ decimalDigits) (cs : List Char) :
    measure ('.' :: c :: cs) = behind 1 (Number.scanFraction (c :: cs)) := by
  have hstarts : Number.startsWithDigit (c :: cs) = true := mem_decimalDigits_iff.mp hc
  rw [measure_eq_measurePlain (by decide) (by decide) fun h => absurd h (by decide), measurePlain,
    hstarts]
  rfl

end Lexeme

namespace NumericLiteral

/-- A literal is measured as far as it goes, and has its shape. -/
theorem measure {shape : Shape} {cs rest : List Char} (h : NumericLiteral shape cs)
    (hrest : Ends rest) : Lexeme.measure (cs ++ rest) = (shape, cs.length) := by
  cases h with
  | @integer radix whole suffix hwhole hsuffix =>
    obtain ⟨c, hc, ds, rfl⟩ := id hwhole.exists_cons
    rw [List.append_assoc, List.length_append, ← scan_integer hwhole hsuffix hrest]
    exact Lexeme.measure_of_digit hc _
  | floating hfloating =>
    rcases hfloating.exists_cons with ⟨c, hc, ds, rfl⟩ | ⟨fraction, scale, hfraction, hscale, rfl⟩
    · have hpoint : some c ≠ some '.' := by
        rintro ⟨⟩
        exact absurd hc (by decide)
      rw [← scan_floating hfloating hpoint hrest]
      exact Lexeme.measure_of_digit hc _
    · have hafter := takes_afterPoint (.inr hfraction) hscale hrest
      obtain ⟨c, hc, ds, rfl⟩ := id hfraction.exists_cons
      refine (Lexeme.measure_of_point hc _).trans ?_
      rw [List.length_cons, Nat.add_comm, ← hafter]
      rfl

/-- **Every numeric literal is one lexeme of its shape**, wherever it stands, if neither a point
nor a character of words comes behind it. -/
theorem read_as_lexeme {shape : Shape} {w : String} (h : NumericLiteral shape w.toList)
    (front rest : String) (hrest : ∀ c ∈ rest.toList.head?, isWordPart c = false ∧ c ≠ '.') :
    (Reader.openAt (front ++ w ++ rest) front.utf8ByteSize).lexeme = ⟨shape, w.toList⟩ ∧
      (Reader.openAt (front ++ w ++ rest) front.utf8ByteSize).lexeme.length = w.utf8ByteSize := by
  have hends : Ends rest.toList := fun c hc =>
    ⟨Bool.eq_false_iff.mpr fun hword =>
      Bool.eq_false_iff.mp (hrest c hc).1 (isWordPart_of_isAsciiWordPart hword), (hrest c hc).2⟩
  have hmeasure := h.measure hends
  have hne : w.toList ++ rest.toList ≠ [] := by
    intro hnil
    rw [hnil] at hmeasure
    obtain ⟨rfl, -⟩ := Prod.mk.inj hmeasure
    cases h
  have hlexeme : (Reader.openAt (front ++ w ++ rest) front.utf8ByteSize).lexeme =
      ⟨shape, w.toList⟩ := by
    have hoffset : min front.utf8ByteSize (front ++ w ++ rest).utf8ByteSize =
        Text.byteSize front.toList := by
      rw [Text.byteSize_toList, String.utf8ByteSize_append, String.utf8ByteSize_append]
      omega
    rw [Reader.lexeme, Reader.openAt, hoffset, String.toList_append, String.toList_append,
      List.append_assoc, Lexeme.ofTextFrom_append, Lexeme.ofText_of_measure hne hmeasure,
      List.take_left]
    rfl
  refine ⟨hlexeme, ?_⟩
  have hshape : shape ≠ .stray := by rintro rfl; cases h
  rw [hlexeme, Lexeme.length, if_neg hshape, Text.byteSize_toList]

/-- Here the digits in front of the point and the suffix are missing. -/
theorem read_as_lexeme_hexadecimal :
    NumericLiteral .float "0x.8p1".toList ∧
      (Reader.openAt ("x = " ++ "0x.8p1" ++ ";") "x = ".utf8ByteSize).lexeme =
        ⟨.float, "0x.8p1".toList⟩ ∧
      (Reader.openAt ("x = " ++ "0x.8p1" ++ ";") "x = ".utf8ByteSize).lexeme.length =
        "0x.8p1".utf8ByteSize := by
  have hsignificand : HexSignificand ['.', '8'] :=
    .fraction (.inl rfl) (by decide : Digits hexDigits ['8'])
  have hpower : Exponent ['p', 'P'] ['p', '1'] :=
    .intro (by decide) (.inl rfl) (by decide : Digits decimalDigits ['1'])
  have hliteral : NumericLiteral .float "0x.8p1".toList :=
    .floating (.hexadecimal (by decide) hsignificand hpower (.inl rfl))
  refine ⟨hliteral, read_as_lexeme hliteral "x = " ";" ?_⟩
  rintro c ⟨⟩
  decide

end NumericLiteral

end JavaHighlight
