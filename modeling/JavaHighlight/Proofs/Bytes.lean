import JavaHighlight.Reader

/-!
# The bytes of characters

A character of ASCII is one byte below 128, and all bytes of any other character lie above
(`Text.le_of_mem_encode`). So what is searched for among the bytes of a text is found just where
it stands among its characters. The first byte of a character tells how many there are
(`Reader.charWidth_encode`).
-/

namespace JavaHighlight

namespace Text

def bytes (cs : List Char) : List UInt8 :=
  cs.flatMap String.utf8EncodeChar

@[simp] theorem bytes_nil : bytes [] = [] := rfl

@[simp] theorem bytes_cons (c : Char) (cs : List Char) :
    bytes (c :: cs) = String.utf8EncodeChar c ++ bytes cs := rfl

@[simp] theorem bytes_append (a b : List Char) : bytes (a ++ b) = bytes a ++ bytes b :=
  List.flatMap_append

@[simp] theorem length_bytes (cs : List Char) : (bytes cs).length = byteSize cs := by
  induction cs with
  | nil => rfl
  | cons c cs ih =>
    rw [bytes_cons, List.length_append, ih, String.length_utf8EncodeChar, byteSize_cons]

theorem utf8Size_of_ascii {c : Char} (h : c.toNat < 128) : c.utf8Size = 1 := by
  rw [Char.utf8Size_eq_one_iff, UInt32.le_iff_toNat_le]
  exact Nat.le_of_lt_succ h

theorem encode_of_ascii {c : Char} (h : c.toNat < 128) :
    String.utf8EncodeChar c = [UInt8.ofNat c.toNat] := by
  rw [String.utf8EncodeChar_eq_singleton (utf8Size_of_ascii h)]
  rfl

/-- The bytes of a character beyond ASCII are no characters of ASCII. -/
theorem le_of_mem_encode {c : Char} (h : 128 ≤ c.toNat) :
    ∀ byte ∈ String.utf8EncodeChar c, 128 ≤ byte.toNat := by
  have hval : c.val.toNat = c.toNat := rfl
  fun_cases String.utf8EncodeChar c with
  | case1 v hle => omega
  | case2 v _ hle =>
    simp only [List.mem_cons, List.not_mem_nil, or_false]
    rintro byte (rfl | rfl) <;> rw [UInt8.toNat_ofNat'] <;> omega
  | case3 v _ _ hle =>
    simp only [List.mem_cons, List.not_mem_nil, or_false]
    rintro byte (rfl | rfl | rfl) <;> rw [UInt8.toNat_ofNat'] <;> omega
  | case4 v _ _ hle =>
    simp only [List.mem_cons, List.not_mem_nil, or_false]
    rintro byte (rfl | rfl | rfl | rfl) <;> rw [UInt8.toNat_ofNat'] <;> omega

end Text

namespace Reader

/-- A byte of a character is one of ASCII just if the character is. -/
theorem isByte_iff_of_mem_encode {a c : Char} (ha : a.toNat < 128) {byte : UInt8}
    (hbyte : byte ∈ String.utf8EncodeChar c) : isByte a byte = true ↔ c = a := by
  rw [isByte, decide_eq_true_eq]
  by_cases hc : c.toNat < 128
  · rw [Text.encode_of_ascii hc, List.mem_singleton] at hbyte
    rw [hbyte, UInt8.toNat_ofNat_of_lt' (by omega : c.toNat < 256), Char.toNat_inj]
  · have hhigh := Text.le_of_mem_encode (Nat.le_of_not_lt hc) byte hbyte
    refine iff_of_false (by omega) ?_
    rintro rfl
    exact hc ha

theorem charWidth_eq (byte : UInt8) :
    charWidth byte =
      if 0xC0 ≤ byte.toNat ∧ byte.toNat ≤ 0xDF then 2
      else if 0xE0 ≤ byte.toNat ∧ byte.toNat ≤ 0xEF then 3
      else if 0xF0 ≤ byte.toNat ∧ byte.toNat ≤ 0xF7 then 4
      else 1 := by
  simp only [charWidth, Bool.and_eq_true, decide_eq_true_eq, UInt8.le_iff_toNat_le]
  rfl

theorem charWidth_encode (c : Char) :
    ∃ first others, String.utf8EncodeChar c = first :: others ∧ charWidth first = c.utf8Size := by
  rw [← String.length_utf8EncodeChar]
  fun_cases String.utf8EncodeChar c with
  | case1 v hle =>
    refine ⟨_, _, rfl, ?_⟩
    rw [charWidth_eq, UInt8.toNat_ofNat', if_neg (by omega), if_neg (by omega), if_neg (by omega)]
    rfl
  | case2 v _ hle =>
    refine ⟨_, _, rfl, ?_⟩
    rw [charWidth_eq, UInt8.toNat_ofNat', if_pos (by omega)]
    rfl
  | case3 v _ _ hle =>
    refine ⟨_, _, rfl, ?_⟩
    rw [charWidth_eq, UInt8.toNat_ofNat', if_neg (by omega), if_pos (by omega)]
    rfl
  | case4 v _ _ hle =>
    refine ⟨_, _, rfl, ?_⟩
    rw [charWidth_eq, UInt8.toNat_ofNat', if_neg (by omega), if_neg (by omega), if_pos (by omega)]
    rfl

end Reader

/-! ## Texts searched by their bytes -/

theorem Text.bytes_prefix_iff {a : List Char} (ha : ∀ c ∈ a, c.toNat < 128) (cs : List Char) :
    bytes a <+: bytes cs ↔ a <+: cs := by
  induction a generalizing cs with
  | nil => exact iff_of_true List.nil_prefix List.nil_prefix
  | cons d a ih =>
    rw [List.forall_mem_cons] at ha
    cases cs with
    | nil => simp [encode_of_ascii ha.1]
    | cons c cs =>
      rw [bytes_cons, bytes_cons, encode_of_ascii ha.1, List.singleton_append,
        List.cons_prefix_cons]
      by_cases hc : c.toNat < 128
      · have hbyte : UInt8.ofNat d.toNat = UInt8.ofNat c.toNat ↔ d = c := by
          rw [← UInt8.toNat_inj, UInt8.toNat_ofNat_of_lt' (by omega : d.toNat < 256),
            UInt8.toNat_ofNat_of_lt' (by omega : c.toNat < 256), Char.toNat_inj]
        rw [encode_of_ascii hc, List.singleton_append, List.cons_prefix_cons, hbyte, ih ha.2]
      · obtain ⟨first, others, hencode, -⟩ := Reader.charWidth_encode c
        have hhigh := le_of_mem_encode (Nat.le_of_not_lt hc) first (hencode ▸ List.mem_cons_self)
        rw [hencode, List.cons_append, List.cons_prefix_cons]
        refine iff_of_false ?_ ?_
        · rintro ⟨rfl, -⟩
          rw [UInt8.toNat_ofNat_of_lt' (by omega : d.toNat < 256)] at hhigh
          omega
        · rintro ⟨rfl, -⟩
          exact hc ha.1

/-- A search for characters by their bytes finds the first of them. -/
theorem Text.findIdx?_bytes {p : Char → Bool} {q : UInt8 → Bool}
    (hq : ∀ c, ∀ byte ∈ String.utf8EncodeChar c, q byte = p c) (cs : List Char) :
    (bytes cs).findIdx? q = if cs.any p then some (byteSize (cs.takeWhile (!p ·))) else none := by
  induction cs with
  | nil => rfl
  | cons c cs ih =>
    rw [bytes_cons, List.findIdx?_append, ih]
    cases hc : p c with
    | true =>
      obtain ⟨first, others, hencode, -⟩ := Reader.charWidth_encode c
      rw [hencode, List.findIdx?_cons, hq c first (hencode ▸ List.mem_cons_self), hc]
      simp [hc]
    | false =>
      have hnone : (String.utf8EncodeChar c).findIdx? q = none :=
        List.findIdx?_eq_none_iff.mpr fun byte hbyte => (hq c byte hbyte).trans hc
      rw [hnone, Option.none_or, String.length_utf8EncodeChar]
      cases hany : cs.any p <;> simp [hc, hany, Nat.add_comm]

end JavaHighlight
