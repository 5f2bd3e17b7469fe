import JavaHighlight.Text.Quoted
import Mathlib.Tactic.SplitIfs

/-!
# Quoted texts read back

A quoted text tells its characters (`Text.unquote?_quoted`). A character is written as a backslash
and a sign, as itself, or by its code point (`Text.quotedChar_cases`), and the first two characters
of a written form tell which of these it is. So a reader that goes on one character at a time
knows where each form ends, whichever characters are taken to show by themselves.
-/

namespace JavaHighlight.Text

/-! ## Digits -/

def hexDigit (c : Char) : Nat :=
  if c.isDigit then c.toNat - '0'.toNat else c.toNat - 'a'.toNat + 10

/-- The number that hexadecimal digits go on with behind those of `value`. -/
def hexValue (value : Nat) (digits : List Char) : Nat :=
  digits.foldl (fun value c => 16 * value + hexDigit c) value

theorem hexDigit_digitChar {d : Nat} (h : d < 16) : hexDigit d.digitChar = d := by
  have key : ∀ d < 16, hexDigit (Nat.digitChar d) = d := by decide
  exact key d h

theorem hexValue_concat (value : Nat) (digits : List Char) (c : Char) :
    hexValue value (digits ++ [c]) = 16 * hexValue value digits + hexDigit c :=
  List.foldl_append

theorem hexValue_toDigits (n : Nat) : hexValue 0 (Nat.toDigits 16 n) = n := by
  induction n using Nat.strongRecOn with
  | ind n ih =>
    by_cases h : n < 16
    · rw [Nat.toDigits_of_lt_base h]
      show 16 * 0 + hexDigit n.digitChar = n
      rw [hexDigit_digitChar h, Nat.mul_zero, Nat.zero_add]
    · rw [Nat.toDigits_of_base_le (by decide) (Nat.le_of_not_lt h), hexValue_concat,
        ih (n / 16) (by omega), hexDigit_digitChar (Nat.mod_lt n (by decide))]
      omega

theorem exists_digit_of_mem_toDigits {n : Nat} {c : Char} (h : c ∈ Nat.toDigits 16 n) :
    ∃ d < 16, c = Nat.digitChar d := by
  induction n using Nat.strongRecOn with
  | ind n ih =>
    by_cases hn : n < 16
    · rw [Nat.toDigits_of_lt_base hn, List.mem_singleton] at h
      exact ⟨n, hn, h⟩
    · rw [Nat.toDigits_of_base_le (by decide) (Nat.le_of_not_lt hn), List.mem_append,
        List.mem_singleton] at h
      rcases h with h | h
      · exact ih (n / 16) (by omega) h
      · exact ⟨n % 16, Nat.mod_lt n (by decide), h⟩

theorem not_mem_toDigits {c : Char} (hc : ∀ d < 16, c ≠ Nat.digitChar d) (n : Nat) :
    c ∉ Nat.toDigits 16 n := by
  intro hmem
  obtain ⟨d, hd, rfl⟩ := exists_digit_of_mem_toDigits hmem
  exact hc d hd rfl

/-! ## Written forms -/

/-- The characters that are written as a backslash and a sign, each with its sign. -/
def signs : List (Char × Char) := [
  ('\x00', '0'), ('\t', 't'), ('\r', 'r'), ('\n', 'n'), ('\\', '\\'), ('"', '"')]

/-- The character whose sign stands behind a backslash. Other characters stand for themselves. -/
def ofSign (sign : Char) : Char :=
  ((signs.find? (·.2 = sign)).map Prod.fst).getD sign

theorem ofSign_of_mem {c sign : Char} (h : (c, sign) ∈ signs) : ofSign sign = c ∧ sign ≠ 'u' := by
  have key : ∀ p ∈ signs, ofSign p.2 = p.1 ∧ p.2 ≠ 'u' := by decide
  exact key _ h

theorem quotedChar_cases (c : Char) :
    (∃ sign, (c, sign) ∈ signs ∧ quotedChar '"' c = ['\\', sign]) ∨
      (∀ sign, (c, sign) ∉ signs) ∧
        (quotedChar '"' c = [c] ∨ quotedChar '"' c = codePointEscape c) := by
  unfold quotedChar
  split_ifs with hnul htab hreturn hfeed hsign hshows
  · exact .inl ⟨'0', by rw [hnul]; decide, rfl⟩
  · exact .inl ⟨'t', by rw [htab]; decide, rfl⟩
  · exact .inl ⟨'r', by rw [hreturn]; decide, rfl⟩
  · exact .inl ⟨'n', by rw [hfeed]; decide, rfl⟩
  · rw [Bool.or_eq_true, decide_eq_true_eq, decide_eq_true_eq] at hsign
    rcases hsign with rfl | rfl
    · exact .inl ⟨'\\', by decide, rfl⟩
    · exact .inl ⟨'"', by decide, rfl⟩
  · exact .inr ⟨by simp_all [signs], .inl rfl⟩
  · exact .inr ⟨by simp_all [signs], .inr rfl⟩

theorem not_mem_codePointEscape (c : Char) : '\n' ∉ codePointEscape c := by
  have hdigits : '\n' ∉ Nat.toDigits 16 c.toNat := not_mem_toDigits (by decide) _
  unfold codePointEscape
  rw [List.mem_append, List.mem_append, not_or, not_or]
  exact ⟨⟨by decide, hdigits⟩, by decide⟩

theorem not_mem_quoted (cs : List Char) : '\n' ∉ quoted cs := by
  have hchar : ∀ c, '\n' ∉ quotedChar '"' c := by
    intro c
    rcases quotedChar_cases c with ⟨sign, hsign, hform⟩ | ⟨hnone, hform | hform⟩
    · have key : ∀ p ∈ signs, '\n' ∉ ['\\', p.2] := by decide
      rw [hform]
      exact key _ hsign
    · rw [hform, List.mem_singleton]
      rintro rfl
      exact hnone 'n' (by decide)
    · rw [hform]
      exact not_mem_codePointEscape c
  unfold quoted
  rw [List.mem_append, List.mem_cons, List.mem_flatMap, List.mem_singleton]
  rintro ((h | ⟨c, -, hc⟩) | h)
  · cases h
  · exact hchar c hc
  · cases h

/-! ## Reading -/

/-- Where a reader of quoted text stands. -/
inductive QuotePlace where
  /-- Between the written forms of two characters. -/
  | between
  /-- Behind a backslash. -/
  | escape
  /-- Behind a backslash and a `u`. -/
  | brace
  /-- Behind the brace and some digits, which make up the given value. -/
  | digits (value : Nat)
  deriving DecidableEq, Repr

/-- Read a quoted text on from a place in it, up to the quote that closes it. There is nothing to
be read behind that quote. -/
def unquoteFrom : QuotePlace → List Char → Option (List Char)
  | _, [] => none
  | .between, c :: cs =>
    if c = '"' then if cs = [] then some [] else none
    else if c = '\\' then unquoteFrom .escape cs
    else (unquoteFrom .between cs).map (c :: ·)
  | .escape, c :: cs =>
    if c = 'u' then unquoteFrom .brace cs else (unquoteFrom .between cs).map (ofSign c :: ·)
  | .brace, c :: cs => if c = '\x7b' then unquoteFrom (.digits 0) cs else none
  | .digits value, c :: cs =>
    if c = '\x7d' then (unquoteFrom .between cs).map (Char.ofNat value :: ·)
    else unquoteFrom (.digits (16 * value + hexDigit c)) cs

/-- The text that a quoted text stands for. -/
def unquote? : List Char → Option (List Char)
  | '"' :: cs => unquoteFrom .between cs
  | _ => none

theorem unquoteFrom_digits {digits : List Char} (h : '\x7d' ∉ digits) (value : Nat)
    (cs : List Char) :
    unquoteFrom (.digits value) (digits ++ '\x7d' :: cs) =
      (unquoteFrom .between cs).map (Char.ofNat (hexValue value digits) :: ·) := by
  induction digits generalizing value with
  | nil => exact if_pos rfl
  | cons c digits ih =>
    rw [List.mem_cons, not_or] at h
    rw [List.cons_append, unquoteFrom, if_neg (Ne.symm h.1), ih h.2]
    rfl

theorem unquoteFrom_codePointEscape (c : Char) (cs : List Char) :
    unquoteFrom .between (codePointEscape c ++ cs) = (unquoteFrom .between cs).map (c :: ·) := by
  have hdigits : '\x7d' ∉ Nat.toDigits 16 c.toNat := not_mem_toDigits (by decide) _
  unfold codePointEscape
  rw [List.append_assoc, List.append_assoc, List.singleton_append]
  show unquoteFrom (.digits 0) (Nat.toDigits 16 c.toNat ++ '\x7d' :: cs) = _
  rw [unquoteFrom_digits hdigits, hexValue_toDigits, Char.ofNat_toNat]

/-- The written form of a character is read as that character. -/
theorem unquoteFrom_quotedChar (c : Char) (cs : List Char) :
    unquoteFrom .between (quotedChar '"' c ++ cs) = (unquoteFrom .between cs).map (c :: ·) := by
  rcases quotedChar_cases c with ⟨sign, hsign, hform⟩ | ⟨hnone, hform | hform⟩
  · obtain ⟨hof, hne⟩ := ofSign_of_mem hsign
    rw [hform]
    show unquoteFrom .escape (sign :: cs) = _
    rw [unquoteFrom, if_neg hne, hof]
  · have hquote : c ≠ '"' := by
      rintro rfl
      exact hnone '"' (by decide)
    have hescape : c ≠ '\\' := by
      rintro rfl
      exact hnone '\\' (by decide)
    rw [hform, List.singleton_append, unquoteFrom, if_neg hquote, if_neg hescape]
  · rw [hform]
    exact unquoteFrom_codePointEscape c cs

theorem unquote?_quoted (cs : List Char) : unquote? (quoted cs) = some cs := by
  show unquoteFrom .between (cs.flatMap (quotedChar '"') ++ ['"']) = some cs
  induction cs with
  | nil => rfl
  | cons c cs ih =>
    rw [List.flatMap_cons, List.append_assoc, unquoteFrom_quotedChar, ih]
    rfl

end JavaHighlight.Text
