import JavaHighlight.Proofs.Bytes
import JavaHighlight.Proofs.Restart.Positions
import JavaHighlight.Proofs.Tiling.Scan

/-!
# The line index is exact

Lines start at zero and behind the bytes that end a line, which are the line feeds and the
carriage returns that no line feed follows (`Text.lineStarts_eq`). So the line of an offset counts
these bytes in front of it, its column leads back from the start of the line to the offset, and
positions increase with offsets (`LineIndex.exact_ofText`).
-/

namespace JavaHighlight

/-- A position on an earlier line, or further left on the same line. -/
def Position.Before (p q : Position) : Prop :=
  p.line < q.line ∨ p.line = q.line ∧ p.column < q.column

theorem Position.Before.ne {p q : Position} (h : p.Before q) : p ≠ q := by
  rintro rfl
  unfold Before at h
  omega

namespace Text

/-- Whether a line ends with the byte at `p`: a line feed, or a carriage return that no line feed
follows. -/
def endsLineAt (bs : List UInt8) (p : Nat) : Bool :=
  bs[p]?.any (Reader.isByte '\n') ||
    (bs[p]?.any (Reader.isByte '\r') && !bs[p + 1]?.any (Reader.isByte '\n'))

theorem endsLineAt_append (a b : List UInt8) (p : Nat) :
    endsLineAt (a ++ b) (a.length + p) = endsLineAt b p := by
  unfold endsLineAt
  rw [Nat.add_assoc, List.getElem?_append_right (by omega), List.getElem?_append_right (by omega),
    Nat.add_sub_cancel_left, Nat.add_sub_cancel_left]

theorem any_isByte_encode {a c : Char} (ha : a.toNat < 128) (rest : List UInt8) {p : Nat}
    (hp : p < c.utf8Size) :
    (String.utf8EncodeChar c ++ rest)[p]?.any (Reader.isByte a) = decide (c = a) := by
  have hlt : p < (String.utf8EncodeChar c).length := by rwa [String.length_utf8EncodeChar]
  rw [List.getElem?_append_left hlt, List.getElem?_eq_getElem hlt, Option.any_some]
  exact Bool.eq_iff_iff.mpr
    ((Reader.isByte_iff_of_mem_encode ha (List.getElem_mem hlt)).trans decide_eq_true_iff.symm)

theorem any_isByte_bytes {a : Char} (ha : a.toNat < 128) (cs : List Char) :
    (bytes cs)[0]?.any (Reader.isByte a) = decide (cs.head? = some a) := by
  cases cs with
  | nil => rfl
  | cons c cs =>
    rw [bytes_cons, any_isByte_encode ha _ c.utf8Size_pos, List.head?_cons]
    simp

/-- A character ends a line with its last byte, or does not end one at all. -/
theorem filter_endsLineAt_encode (c : Char) (cs : List Char) :
    (List.range c.utf8Size).filter (endsLineAt (bytes (c :: cs))) =
      if endsLineHere c cs then [c.utf8Size - 1] else [] := by
  have hbyte : ∀ a : Char, a.toNat < 128 → ∀ p < c.utf8Size,
      (bytes (c :: cs))[p]?.any (Reader.isByte a) = decide (c = a) :=
    fun a ha p hp => any_isByte_encode ha (bytes cs) hp
  by_cases hc : isLineEnd c = true
  · have hsize : c.utf8Size = 1 := by
      rcases eq_of_isLineEnd hc with rfl | rfl <;> rfl
    have hnext : (bytes (c :: cs))[0 + 1]?.any (Reader.isByte '\n') =
        decide (cs.head? = some '\n') := by
      rw [bytes_cons, List.getElem?_append_right (by simp [hsize]), String.length_utf8EncodeChar,
        hsize]
      exact any_isByte_bytes (by decide) cs
    have hends : endsLineAt (bytes (c :: cs)) 0 = endsLineHere c cs := by
      unfold endsLineAt endsLineHere
      rw [hnext, hbyte '\n' (by decide) 0 (by omega), hbyte '\r' (by decide) 0 (by omega)]
      rcases eq_of_isLineEnd hc with rfl | rfl <;> simp [isLineEnd]
    rw [hsize, List.range_one, List.filter_cons, hends, List.filter_nil]
  · have hends : ∀ p < c.utf8Size, endsLineAt (bytes (c :: cs)) p = false := by
      intro p hp
      unfold endsLineAt
      rw [hbyte '\n' (by decide) p hp, hbyte '\r' (by decide) p hp]
      simp only [isLineEnd, Bool.or_eq_true, decide_eq_true_eq, not_or] at hc
      simp [hc.1, hc.2]
    have hhere : endsLineHere c cs = false := by
      simp [endsLineHere, hc]
    rw [hhere, List.filter_eq_nil_iff.mpr]
    · rfl
    · intro p hp
      rw [hends p (List.mem_range.mp hp)]
      exact Bool.false_ne_true

/-- **Where lines start**: at zero and behind each byte that ends a line, in this order. -/
theorem lineStarts_eq (cs : List Char) :
    lineStarts cs =
      0 :: ((List.range (byteSize cs)).filter (endsLineAt (bytes cs))).map (· + 1) := by
  induction cs with
  | nil => rfl
  | cons c cs ih =>
    have hlength := String.length_utf8EncodeChar c
    have hpos := c.utf8Size_pos
    have hrest : ((List.range (byteSize cs)).map (c.utf8Size + ·)).filter
        (endsLineAt (bytes (c :: cs))) =
          ((List.range (byteSize cs)).filter (endsLineAt (bytes cs))).map (c.utf8Size + ·) := by
      rw [List.filter_map]
      congr 2
      funext p
      show endsLineAt (bytes (c :: cs)) (c.utf8Size + p) = _
      rw [← hlength]
      exact endsLineAt_append _ _ p
    rw [lineStarts_cons, ih, List.tail_cons, byteSize_cons, List.range_add, List.filter_append,
      filter_endsLineAt_encode, hrest]
    split
    · simp only [List.map_cons, List.map_map, List.cons_append, List.nil_append]
      congr 2
      · omega
      · refine List.map_congr_left fun p _ => ?_
        show p + 1 + c.utf8Size = c.utf8Size + p + 1
        omega
    · simp only [List.map_map, List.nil_append]
      congr 1
      refine List.map_congr_left fun p _ => ?_
      show p + 1 + c.utf8Size = c.utf8Size + p + 1
      omega

/-- The lines that start at the latest at an offset start at zero and behind the bytes in front of
the offset that end a line. -/
theorem takeWhile_lineStarts {cs : List Char} {o : Nat} (ho : o ≤ byteSize cs) :
    (lineStarts cs).takeWhile (· ≤ o) =
      0 :: ((List.range o).filter (endsLineAt (bytes cs))).map (· + 1) := by
  obtain ⟨k, hk⟩ := Nat.exists_eq_add_of_le ho
  rw [lineStarts_eq, List.takeWhile_cons_of_pos (by simp), hk, List.range_add, List.filter_append,
    List.map_append, List.takeWhile_append_of_pos]
  · have hlater : ((((List.range k).map (o + ·)).filter (endsLineAt (bytes cs))).map
        (· + 1)).takeWhile (· ≤ o) = [] := by
      refine List.eq_nil_iff_forall_not_mem.mpr fun p hp => ?_
      have hle : p ≤ o := of_decide_eq_true (List.all_eq_true.mp List.all_takeWhile p hp)
      obtain ⟨q, hq, rfl⟩ := List.mem_map.mp ((List.takeWhile_sublist _).mem hp)
      obtain ⟨r, -, rfl⟩ := List.mem_map.mp (List.mem_filter.mp hq).1
      omega
    rw [hlater, List.append_nil]
  · intro p hp
    obtain ⟨q, hq, rfl⟩ := List.mem_map.mp hp
    have := List.mem_range.mp (List.mem_filter.mp hq).1
    simp only [decide_eq_true_eq]
    omega

end Text

namespace LineIndex

open Text

variable {cs : List Char} {a b o : Nat}

theorem position_min (cs : List Char) (offset : Nat) :
    (ofText cs).position (min offset (byteSize cs)) = (ofText cs).position offset := by
  show position ⟨lineStarts cs, byteSize cs⟩ _ = position ⟨lineStarts cs, byteSize cs⟩ _
  simp only [position, Nat.min_assoc, Nat.min_self]

theorem line_position (ho : o ≤ byteSize cs) :
    ((ofText cs).position o).line = 1 + (List.range o).countP (endsLineAt (bytes cs)) := by
  rw [position_ofText cs ho, takeWhile_lineStarts ho, List.length_cons, List.length_map,
    List.countP_eq_length_filter, Nat.add_comm]

theorem column_position (ho : o ≤ byteSize cs) :
    let position := (ofText cs).position o
    ∃ start, (ofText cs).starts[position.line - 1]? = some start ∧ start ≤ o ∧
      position.column = o - start + 1 := by
  intro position
  let reached := (lineStarts cs).takeWhile (· ≤ o)
  have hposition : position = ⟨reached.length, o - reached.getLastD 0 + 1⟩ :=
    position_ofText cs ho
  have hne : reached ≠ [] := by
    show (lineStarts cs).takeWhile (· ≤ o) ≠ []
    rw [takeWhile_lineStarts ho]
    exact List.cons_ne_nil _ _
  have hlast : reached.getLastD 0 = reached.getLast hne := by
    rw [List.getLastD_eq_getLast?, List.getLast?_eq_some_getLast hne, Option.getD_some]
  have hindex : reached[reached.length - 1]? = some (reached.getLast hne) := by
    rw [← List.getLast?_eq_getElem?, List.getLast?_eq_some_getLast hne]
  have hpos := List.length_pos_iff.mpr hne
  refine ⟨reached.getLast hne, ?_, ?_, ?_⟩
  · show (lineStarts cs)[position.line - 1]? = _
    rw [hposition, ← List.takeWhile_append_dropWhile (p := (· ≤ o)) (l := lineStarts cs)]
    have hlt : reached.length - 1 < reached.length := Nat.sub_lt hpos Nat.one_pos
    rw [List.getElem?_append_left hlt, hindex]
  · have hall : reached.all (· ≤ o) = true := List.all_takeWhile
    exact of_decide_eq_true (List.all_eq_true.mp hall _ (List.getLast_mem hne))
  · rw [hposition, hlast]

theorem line_mono (hab : a ≤ b) (hb : b ≤ byteSize cs) :
    ((ofText cs).position a).line ≤ ((ofText cs).position b).line := by
  rw [line_position (Nat.le_trans hab hb), line_position hb]
  exact Nat.add_le_add_left ((List.range_sublist.mpr hab).countP_le) 1

theorem before_position (hab : a < b) (hb : b ≤ byteSize cs) :
    ((ofText cs).position a).Before ((ofText cs).position b) := by
  obtain ⟨startA, hstartA, hleA, hcolumnA⟩ := @column_position cs a (by omega)
  obtain ⟨startB, hstartB, hleB, hcolumnB⟩ := column_position hb
  rcases Nat.lt_or_eq_of_le (line_mono (Nat.le_of_lt hab) hb) with hline | hline
  · exact .inl hline
  · rw [hline, hstartB] at hstartA
    obtain rfl := Option.some.inj hstartA
    exact .inr ⟨hline, by omega⟩

/-- A line index tells exactly where the lines of a source start, and where its offsets are. -/
structure Exact (index : LineIndex) (source : String) : Prop where
  /-- Lines start one behind the other, the first one at zero. -/
  ascending : index.starts.Pairwise (· < ·)
  head : index.starts.head? = some 0
  length : index.starts.length = (lines source.toList).length
  /-- The other lines start behind the bytes that end a line. -/
  mem_iff : ∀ p, p ∈ index.starts ↔
    p = 0 ∨ ∃ q < source.utf8ByteSize, endsLineAt (Reader.bytes source) q = true ∧ p = q + 1
  /-- The line of an offset is one more than the number of such bytes in front of it. -/
  line_eq : ∀ offset, (index.position offset).line =
    1 + (List.range (min offset source.utf8ByteSize)).countP (endsLineAt (Reader.bytes source))
  /-- Its column leads from the start of the line to the offset. -/
  column_eq : ∀ offset, 1 ≤ (index.position offset).column ∧
    ∃ start, index.starts[(index.position offset).line - 1]? = some start ∧
      start + (index.position offset).column - 1 = min offset source.utf8ByteSize
  before : ∀ a b, a < b → b ≤ source.utf8ByteSize → (index.position a).Before (index.position b)
  injective : ∀ a b, a ≤ source.utf8ByteSize → b ≤ source.utf8ByteSize →
    index.position a = index.position b → a = b

/-- **The line index is exact.** Lines start at zero and behind each byte that ends a line. The
line of an offset is one more than the number of such bytes in front of it, its column leads from
the start of the line to the offset, and so no two offsets have the same position. -/
theorem exact_ofText (source : String) : (ofText source.toList).Exact source := by
  have hsize : byteSize source.toList = source.utf8ByteSize := byteSize_toList source
  have hstarts : (ofText source.toList).starts = 0 ::
      ((List.range source.utf8ByteSize).filter (endsLineAt (Reader.bytes source))).map (· + 1) :=
    hsize ▸ lineStarts_eq source.toList
  have hle : ∀ offset, min offset source.utf8ByteSize ≤ byteSize source.toList :=
    fun offset => hsize ▸ Nat.min_le_right _ _
  have hmin : ∀ offset, (ofText source.toList).position offset =
      (ofText source.toList).position (min offset source.utf8ByteSize) := by
    intro offset
    rw [← hsize, position_min]
  have hbefore : ∀ a b, a < b → b ≤ source.utf8ByteSize →
      ((ofText source.toList).position a).Before ((ofText source.toList).position b) :=
    fun a b hab hb => before_position hab (hsize ▸ hb)
  refine ⟨?_, ?_, length_startsFrom _ _, fun p => ?_, fun offset => ?_, fun offset => ?_, hbefore,
    fun a b ha hb heq => ?_⟩
  · rw [hstarts, List.pairwise_cons, List.pairwise_map]
    refine ⟨fun p hp => ?_, ?_⟩
    · obtain ⟨q, -, rfl⟩ := List.mem_map.mp hp
      exact Nat.succ_pos q
    · exact (List.pairwise_lt_range.filter _).imp Nat.succ_lt_succ
  · rw [hstarts, List.head?_cons]
  · rw [hstarts, List.mem_cons, List.mem_map]
    simp only [List.mem_filter, List.mem_range, and_assoc, eq_comm]
  · rw [hmin offset]
    exact line_position (hle offset)
  · obtain ⟨start, hstart, hreach, hcolumn⟩ := column_position (hle offset)
    rw [hmin offset]
    refine ⟨by omega, start, hstart, by omega⟩
  · rcases Nat.lt_trichotomy a b with hab | hab | hab
    · exact absurd heq (hbefore a b hab hb).ne
    · exact hab
    · exact absurd heq.symm (hbefore b a hab ha).ne

/-- A carriage return alone ends a line, and one with its line feed ends one line. -/
example : (ofText "a\r\r\nb\n".toList).starts = [0, 2, 4, 6] := by decide +kernel

end LineIndex

end JavaHighlight
