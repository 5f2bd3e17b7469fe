/-!
# Text measured in bytes

Offsets into a text count the bytes of its UTF-8 form, while the text itself is a list of
characters. This module leads from one to the other: the size of a text, what is left of it
behind an offset, and the part of it between two offsets.
-/

namespace JavaHighlight.Text

/-- The number of bytes of `cs` in UTF-8. -/
def byteSize (cs : List Char) : Nat :=
  cs.foldr (fun c n => c.utf8Size + n) 0

@[simp] theorem byteSize_nil : byteSize [] = 0 := rfl

@[simp] theorem byteSize_cons (c : Char) (cs : List Char) :
    byteSize (c :: cs) = c.utf8Size + byteSize cs := rfl

@[simp] theorem byteSize_append (a b : List Char) :
    byteSize (a ++ b) = byteSize a + byteSize b := by
  induction a with
  | nil => exact (Nat.zero_add _).symm
  | cons c a ih => rw [List.cons_append, byteSize_cons, byteSize_cons, ih, Nat.add_assoc]

theorem length_le_byteSize (cs : List Char) : cs.length ≤ byteSize cs := by
  induction cs with
  | nil => simp
  | cons c cs ih =>
    have := c.utf8Size_pos
    simp only [List.length_cons, byteSize_cons]
    omega

/-- What is left of a text after its first `n` bytes: how many bytes of a character cut in
two come first, then the characters after them. -/
def dropBytes : Nat → List Char → Nat × List Char
  | _, [] => (0, [])
  | 0, c :: cs => (0, c :: cs)
  | n + 1, c :: cs =>
    if c.utf8Size ≤ n + 1 then dropBytes (n + 1 - c.utf8Size) cs else (c.utf8Size - (n + 1), cs)

@[simp] theorem dropBytes_zero (cs : List Char) : dropBytes 0 cs = (0, cs) := by
  cases cs <;> rfl

@[simp] theorem dropBytes_append (a b : List Char) : dropBytes (byteSize a) (a ++ b) = (0, b) := by
  induction a with
  | nil => simp
  | cons c a ih =>
    have hc := c.utf8Size_pos
    obtain ⟨n, hn⟩ : ∃ n, byteSize (c :: a) = n + 1 :=
      ⟨byteSize (c :: a) - 1, by simp only [byteSize_cons]; omega⟩
    have hle : c.utf8Size ≤ n + 1 := by simp only [byteSize_cons] at hn; omega
    have hsub : n + 1 - c.utf8Size = byteSize a := by simp only [byteSize_cons] at hn; omega
    rw [hn, List.cons_append, dropBytes, if_pos hle, hsub, ih]

/-- The largest offset at or below `n` that falls between two characters of the text. -/
def floorBoundary : Nat → List Char → Nat
  | _, [] => 0
  | n, c :: cs => if c.utf8Size ≤ n then c.utf8Size + floorBoundary (n - c.utf8Size) cs else 0

theorem floorBoundary_le (n : Nat) (cs : List Char) : floorBoundary n cs ≤ n := by
  induction cs generalizing n with
  | nil => simp [floorBoundary]
  | cons c cs ih =>
    rw [floorBoundary]
    split
    · have := ih (n - c.utf8Size)
      omega
    · omega

theorem exists_byteSize_eq_floorBoundary (n : Nat) (cs : List Char) :
    ∃ a b, cs = a ++ b ∧ byteSize a = floorBoundary n cs := by
  induction cs generalizing n with
  | nil => exact ⟨[], [], rfl, rfl⟩
  | cons c cs ih =>
    by_cases h : c.utf8Size ≤ n
    · obtain ⟨a, b, hab, hsize⟩ := ih (n - c.utf8Size)
      exact ⟨c :: a, b, by rw [hab, List.cons_append], by
        rw [byteSize_cons, hsize, floorBoundary, if_pos h]⟩
    · exact ⟨[], c :: cs, rfl, by rw [floorBoundary, if_neg h, byteSize_nil]⟩

/-- The part of a string between two offsets; none if the range is reversed, leaves the string
or cuts a character. -/
def slice? (source : String) (start stop : Nat) : Option String :=
  if start ≤ stop ∧ stop ≤ source.utf8ByteSize then
    String.fromUTF8? (source.toUTF8.extract start stop)
  else none

theorem slice?_append (a b c : String) :
    slice? (a ++ (b ++ c)) a.utf8ByteSize (a.utf8ByteSize + b.utf8ByteSize) = some b := by
  have hrange : a.utf8ByteSize ≤ a.utf8ByteSize + b.utf8ByteSize ∧
      a.utf8ByteSize + b.utf8ByteSize ≤ (a ++ (b ++ c)).utf8ByteSize := by
    simp only [String.utf8ByteSize_append]; omega
  have hbytes : (a ++ (b ++ c)).toUTF8.extract a.utf8ByteSize (a.utf8ByteSize + b.utf8ByteSize) =
      b.toByteArray := by
    simp only [String.toUTF8, String.toByteArray_append]
    rw [← String.size_toByteArray, ← String.size_toByteArray]
    exact (ByteArray.extract_append_size_add (i := 0)).trans (ByteArray.extract_append_eq_left rfl)
  rw [slice?, if_pos hrange, hbytes]
  simp [String.fromUTF8?, String.fromUTF8, b.isValidUTF8]

end JavaHighlight.Text
