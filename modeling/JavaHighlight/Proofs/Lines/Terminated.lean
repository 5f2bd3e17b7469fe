import JavaHighlight.Text.Lines

/-!
# Terminated lines

All lines of a text but the last end with a terminator, and the last one has none
(`Text.lined_lines`). So an offset within a line has the number of the line as its line, and its
distance from the start of the line gives its column (`LineIndex.position_of_line`).
-/

namespace JavaHighlight

namespace Text

/-- A text is empty or ends with a line terminator. -/
def EndsLine (cs : List Char) : Prop :=
  ∀ c ∈ cs.getLast?, isLineEnd c = true

theorem endsLine_nil : EndsLine [] := by
  intro c hc
  cases hc

theorem endsLine_singleton_iff {c : Char} : EndsLine [c] ↔ isLineEnd c = true := by
  simp [EndsLine]

theorem endsLine_append_iff {a b : List Char} (h : b ≠ []) : EndsLine (a ++ b) ↔ EndsLine b := by
  have hlast : (a ++ b).getLast? = b.getLast? := by
    rw [List.getLast?_append, List.getLast?_eq_some_getLast h, Option.some_or]
  unfold EndsLine
  rw [hlast]

theorem EndsLine.of_append {a b : List Char} (h : EndsLine (a ++ b)) : EndsLine b := by
  by_cases hb : b = []
  · exact hb ▸ endsLine_nil
  · exact (endsLine_append_iff hb).mp h

theorem byteSize_pos {cs : List Char} (h : cs ≠ []) : 0 < byteSize cs :=
  Nat.lt_of_lt_of_le (List.length_pos_iff.mpr h) (length_le_byteSize cs)

inductive Terminated : List Char → Prop
  | crlf : Terminated ['\r', '\n']
  | single {c : Char} (h : isLineEnd c = true) : Terminated [c]
  | cons {c : Char} {l : List Char} (h : isLineEnd c = false) (hl : Terminated l) :
      Terminated (c :: l)

namespace Terminated

variable {l : List Char}

theorem ne_nil (h : Terminated l) : l ≠ [] := by
  cases h <;> simp

theorem endsLine (h : Terminated l) : EndsLine l := by
  induction h with
  | crlf => simp [EndsLine, isLineEnd]
  | single h => exact endsLine_singleton_iff.mpr h
  | cons h hl ih => exact (endsLine_append_iff hl.ne_nil (a := [_])).mpr ih

end Terminated

/-- Lines of which all but the last are terminated. -/
inductive Lined : List (List Char) → Prop
  | last {l : List Char} (h : ∀ c ∈ l, isLineEnd c = false) : Lined [l]
  | cons {l : List Char} {ls : List (List Char)} (hl : Terminated l) (hls : Lined ls) :
      Lined (l :: ls)

theorem Lined.ne_nil {ls : List (List Char)} (h : Lined ls) : ls ≠ [] := by
  cases h <;> simp

theorem Lined.consFirst {c : Char} (hc : isLineEnd c = false) {ls : List (List Char)}
    (h : Lined ls) : Lined (consFirst c ls) := by
  cases h with
  | last h => exact .last (List.forall_mem_cons.mpr ⟨hc, h⟩)
  | cons hl hls => exact .cons (.cons hc hl) hls

theorem Lined.terminated_of_mem_take {ls : List (List Char)} (h : Lined ls) {k : Nat}
    (hk : k < ls.length) : ∀ l ∈ ls.take k, Terminated l := by
  induction h generalizing k with
  | last h =>
    obtain rfl : k = 0 := Nat.lt_one_iff.mp hk
    simp
  | cons hl hls ih =>
    cases k with
    | zero => simp
    | succ k => exact List.forall_mem_cons.mpr ⟨hl, ih (Nat.lt_of_succ_lt_succ hk)⟩

theorem endsLine_flatten {ls : List (List Char)} (h : ∀ l ∈ ls, Terminated l) :
    EndsLine ls.flatten := by
  induction ls with
  | nil => exact endsLine_nil
  | cons l ls ih =>
    rw [List.forall_mem_cons] at h
    rw [List.flatten_cons]
    by_cases hls : ls.flatten = []
    · rw [hls, List.append_nil]
      exact h.1.endsLine
    · exact (endsLine_append_iff hls).mpr (ih h.2)

theorem lined_lines (cs : List Char) : Lined (lines cs) := by
  fun_induction lines cs with
  | case1 => exact .last (by simp)
  | case2 cs ih => exact .cons .crlf ih
  | case3 c cs _ h ih => exact .cons (.single h) ih
  | case4 c cs _ h ih => exact ih.consFirst (Bool.eq_false_iff.mpr h)

theorem lines_cons {c : Char} (hc : isLineEnd c = false) (cs : List Char) :
    lines (c :: cs) = Text.consFirst c (lines cs) := by
  have hne : c ≠ '\r' := by
    rintro rfl
    cases hc
  rw [lines, if_neg (by rw [hc]; simp)]
  intro cs' heq
  exact absurd heq hne

/-- A terminated line that is a text of its own has an empty line behind it. -/
theorem Terminated.lines_eq {l : List Char} (h : Terminated l) : lines l = [l, []] := by
  induction h with
  | crlf => rfl
  | single h =>
    rw [lines, if_pos h]
    · rfl
    · intro cs _ heq
      cases heq
  | cons h hl ih =>
    rw [lines_cons h, ih]
    rfl

theorem lines_of_unterminated {l : List Char} (h : ∀ c ∈ l, isLineEnd c = false) :
    lines l = [l] := by
  induction l with
  | nil => rfl
  | cons c l ih =>
    rw [List.forall_mem_cons] at h
    rw [lines_cons h.1, ih h.2]
    rfl

theorem Lined.lines_of_mem {ls : List (List Char)} (h : Lined ls) :
    ∀ l ∈ ls, ∃ later, lines l = l :: later := by
  induction h with
  | last h => exact List.forall_mem_singleton.mpr ⟨[], lines_of_unterminated h⟩
  | cons hl _ ih => exact List.forall_mem_cons.mpr ⟨⟨[[]], hl.lines_eq⟩, ih⟩

/-! ## Where lines start -/

theorem startsFrom_append (offset : Nat) (a b : List (List Char)) :
    startsFrom offset (a ++ b) =
      startsFrom offset a ++ startsFrom (offset + byteSize a.flatten) b := by
  induction a generalizing offset with
  | nil => rfl
  | cons l a ih =>
    rw [List.cons_append, startsFrom, startsFrom, ih, List.flatten_cons, byteSize_append,
      Nat.add_assoc, List.cons_append]

theorem getElem_startsFrom (offset : Nat) (ls : List (List Char)) {k : Nat}
    (hk : k < (startsFrom offset ls).length) :
    (startsFrom offset ls)[k] = offset + byteSize (ls.take k).flatten := by
  induction ls generalizing offset k with
  | nil => cases hk
  | cons l ls ih =>
    cases k with
    | zero => rfl
    | succ k =>
      have hk' : k < (startsFrom (offset + byteSize l) ls).length := Nat.lt_of_succ_lt_succ hk
      show (startsFrom (offset + byteSize l) ls)[k] = _
      rw [ih, List.take_succ_cons, List.flatten_cons, byteSize_append, Nat.add_assoc]

theorem le_of_mem_startsFrom {offset p : Nat} {ls : List (List Char)}
    (h : p ∈ startsFrom offset ls) : offset ≤ p ∧ p ≤ offset + byteSize ls.flatten := by
  induction ls generalizing offset with
  | nil => cases h
  | cons l ls ih =>
    rw [startsFrom, List.mem_cons] at h
    rw [List.flatten_cons, byteSize_append]
    rcases h with rfl | h
    · exact ⟨Nat.le_refl _, Nat.le_add_right _ _⟩
    · have := ih h
      omega

end Text

namespace LineIndex

open Text

/-- An offset within a line has the number of the line and its distance from the line's start. -/
theorem position_of_line {cs line : List Char} {earlier later : List (List Char)}
    (h : lines cs = earlier ++ line :: later) {o : Nat} (ho : o < byteSize line) :
    (ofText cs).position (byteSize earlier.flatten + o) = ⟨earlier.length + 1, o + 1⟩ := by
  let p := byteSize earlier.flatten
  have hcs : cs = earlier.flatten ++ (line ++ later.flatten) := by
    rw [← flatten_lines cs, h, List.flatten_append, List.flatten_cons]
  have hmin : min (p + o) (byteSize cs) = p + o := by
    rw [hcs, byteSize_append, byteSize_append]
    omega
  have hstarts : startsFrom 0 (lines cs) =
      (startsFrom 0 earlier ++ [p]) ++ startsFrom (p + byteSize line) later := by
    rw [h, startsFrom_append, startsFrom, Nat.zero_add, List.append_assoc]
    rfl
  have hreached : (startsFrom 0 (lines cs)).takeWhile (· ≤ p + o) =
      startsFrom 0 earlier ++ [p] := by
    have hall : ∀ q ∈ startsFrom 0 earlier ++ [p], decide (q ≤ p + o) = true := by
      intro q hq
      rw [decide_eq_true_eq]
      rcases List.mem_append.mp hq with hq | hq
      · have hle : q ≤ 0 + p := (le_of_mem_startsFrom hq).2
        omega
      · rw [List.mem_singleton.mp hq]
        omega
    have hnone : (startsFrom (p + byteSize line) later).takeWhile (· ≤ p + o) = [] := by
      cases later with
      | nil => rfl
      | cons l later =>
        rw [startsFrom, List.takeWhile_cons_of_neg]
        rw [decide_eq_true_eq]
        omega
    rw [hstarts, List.takeWhile_append_of_pos hall, hnone, List.append_nil]
  show position ⟨startsFrom 0 (lines cs), byteSize cs⟩ (p + o) = _
  unfold position
  simp only [hmin, hreached, List.length_append, length_startsFrom, List.length_singleton,
    List.getLastD_concat, Nat.add_sub_cancel_left]

end LineIndex

end JavaHighlight
