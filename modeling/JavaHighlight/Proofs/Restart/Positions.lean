import JavaHighlight.Proofs.Lines.Terminated

/-!
# Positions behind a cut

A text is cut between any two characters. Behind the cut, lines start where they do in the second
part alone, only that the first line of that part goes on with a line of the first one
(`Text.lineStarts_append`). So positions in the second part turn into positions in the text by
`Position.behind` (`LineIndex.position_append`), also where the cut parts a carriage return from
its line feed.
-/

namespace JavaHighlight

/-- A position in a text that starts at the position `origin`, counted from where `origin` is. -/
def Position.behind (origin p : Position) : Position :=
  if p.line = 1 then ⟨origin.line, origin.column + p.column - 1⟩
  else ⟨origin.line + p.line - 1, p.column⟩

theorem Position.line_behind (origin p : Position) :
    (origin.behind p).line = origin.line + p.line - 1 := by
  unfold behind
  split
  · next h => rw [h, Nat.add_sub_cancel]
  · rfl

namespace Text

/-- The offsets at which the lines of a text start. -/
def lineStarts (cs : List Char) : List Nat :=
  startsFrom 0 (lines cs)

theorem startsFrom_add (k offset : Nat) (ls : List (List Char)) :
    startsFrom (k + offset) ls = (startsFrom k ls).map (· + offset) := by
  induction ls generalizing k with
  | nil => rfl
  | cons l ls ih =>
    rw [startsFrom, startsFrom, List.map_cons, ← ih, Nat.add_right_comm]

/-- A line starts behind a character that ends a line, unless a carriage return is followed by a
line feed. -/
def endsLineHere (c : Char) (cs : List Char) : Bool :=
  isLineEnd c && !(c = '\r' && cs.head? = some '\n')

theorem lines_ne_nil (cs : List Char) : lines cs ≠ [] :=
  (lined_lines cs).ne_nil

theorem lineStarts_eq_cons (cs : List Char) : lineStarts cs = 0 :: (lineStarts cs).tail := by
  obtain ⟨l, ls, hls⟩ := List.exists_cons_of_ne_nil (lines_ne_nil cs)
  rw [lineStarts, hls]
  rfl

theorem lineStarts_cons (c : Char) (cs : List Char) :
    lineStarts (c :: cs) =
      0 :: (if endsLineHere c cs then lineStarts cs else (lineStarts cs).tail).map
        (· + c.utf8Size) := by
  unfold lineStarts
  -- Lines are taken by one character, or by two for a carriage return with its line feed.
  rw [lines.eq_def]
  split
  · next h => cases h
  · next cs' heq =>
    obtain ⟨rfl, rfl⟩ := List.cons.inj heq
    have hlines : lines ('\n' :: cs') = ['\n'] :: lines cs' := by
      rw [lines, if_pos (by decide)]
      intro _ h
      cases h
    have hstarts : ∀ k, startsFrom k (['\r', '\n'] :: lines cs') =
        k :: startsFrom (k + 2) (lines cs') := fun _ => rfl
    rw [hlines, hstarts, if_neg (by simp [endsLineHere]), startsFrom, List.tail_cons,
      ← startsFrom_add]
    rfl
  · next c' cs' hcrlf heq =>
    obtain ⟨rfl, rfl⟩ := List.cons.inj heq
    have hends : endsLineHere c cs = isLineEnd c := by
      by_cases hc : c = '\r'
      · subst hc
        have hhead : cs.head? ≠ some '\n' := by
          intro h
          obtain ⟨cs', rfl⟩ := List.head?_eq_some_iff.mp h
          exact hcrlf cs' rfl rfl
        simp [endsLineHere, hhead]
      · simp [endsLineHere, hc]
    rw [hends]
    split
    · rw [startsFrom, ← startsFrom_add]
      rfl
    · obtain ⟨l, ls, hls⟩ := List.exists_cons_of_ne_nil (lines_ne_nil cs)
      rw [hls]
      show startsFrom 0 ((c :: l) :: ls) = 0 :: List.map _ (startsFrom _ ls)
      rw [startsFrom, byteSize_cons, Nat.add_comm c.utf8Size, ← Nat.add_assoc, startsFrom_add]

theorem pos_of_mem_tail_lineStarts {cs : List Char} {p : Nat} (h : p ∈ (lineStarts cs).tail) :
    0 < p := by
  cases cs with
  | nil => cases h
  | cons c cs =>
    rw [lineStarts_cons, List.tail_cons, List.mem_map] at h
    obtain ⟨q, -, rfl⟩ := h
    exact Nat.lt_of_lt_of_le c.utf8Size_pos (Nat.le_add_left _ _)

/-- **Lines behind a cut** start where they do in the second part, but for its first line, which
goes on with the last line that starts in the first part. -/
theorem lineStarts_append (a b : List Char) :
    ∃ starts, starts ≠ [] ∧ (∀ p ∈ starts, p ≤ byteSize a) ∧
      lineStarts (a ++ b) = starts ++ (lineStarts b).tail.map (· + byteSize a) := by
  induction a with
  | nil =>
    refine ⟨[0], by simp, by simp, ?_⟩
    rw [List.nil_append, byteSize_nil]
    simp only [Nat.add_zero, List.map_id']
    exact lineStarts_eq_cons b
  | cons c a ih =>
    obtain ⟨starts, hne, hle, h⟩ := ih
    let kept := if endsLineHere c (a ++ b) then starts else starts.tail
    have hkept : ∀ p ∈ kept, p ≤ byteSize a := by
      intro p hp
      refine hle p ?_
      unfold kept at hp
      split at hp
      · exact hp
      · exact List.mem_of_mem_tail hp
    have hsplit : (if endsLineHere c (a ++ b) then lineStarts (a ++ b)
        else (lineStarts (a ++ b)).tail) = kept ++ (lineStarts b).tail.map (· + byteSize a) := by
      unfold kept
      split
      · exact h
      · rw [h, List.tail_append_of_ne_nil hne]
    refine ⟨0 :: kept.map (· + c.utf8Size), by simp, ?_, ?_⟩
    · intro p hp
      rw [byteSize_cons]
      rcases List.mem_cons.mp hp with rfl | hp
      · exact Nat.zero_le _
      · obtain ⟨q, hq, rfl⟩ := List.mem_map.mp hp
        have := hkept q hq
        omega
    · rw [List.cons_append, lineStarts_cons, hsplit, List.map_append, List.map_map, byteSize_cons,
        List.cons_append]
      congr 2
      refine List.map_congr_left fun p _ => ?_
      show p + byteSize a + c.utf8Size = p + (c.utf8Size + byteSize a)
      omega

end Text

namespace LineIndex

open Text

theorem position_ofText (cs : List Char) {o : Nat} (ho : o ≤ byteSize cs) :
    (ofText cs).position o =
      ⟨((lineStarts cs).takeWhile (· ≤ o)).length,
        o - ((lineStarts cs).takeWhile (· ≤ o)).getLastD 0 + 1⟩ := by
  show position ⟨lineStarts cs, byteSize cs⟩ o = _
  unfold position
  rw [Nat.min_eq_left ho]

theorem takeWhile_starts {starts : List Nat} {size : Nat} (h : ∀ p ∈ starts, p ≤ size)
    (later : List Nat) (o : Nat) :
    (starts ++ later.map (· + size)).takeWhile (· ≤ size + o) =
      starts ++ (later.takeWhile (· ≤ o)).map (· + size) := by
  have hall : ∀ p ∈ starts, decide (p ≤ size + o) = true := fun p hp =>
    decide_eq_true (Nat.le_trans (h p hp) (Nat.le_add_right _ _))
  rw [List.takeWhile_append_of_pos hall, List.takeWhile_map]
  congr 3
  funext p
  show decide (p + size ≤ size + o) = decide (p ≤ o)
  exact decide_eq_decide.mpr (by omega)

theorem line_pos (cs : List Char) {o : Nat} (ho : o ≤ byteSize cs) :
    0 < ((ofText cs).position o).line := by
  rw [position_ofText cs ho, lineStarts_eq_cons, List.takeWhile_cons_of_pos (by simp)]
  exact Nat.succ_pos _

/-- **Positions behind a cut** are those in the second part, counted from where the cut is. -/
theorem position_append (a b : List Char) {o : Nat} (ho : o ≤ byteSize b) :
    (ofText (a ++ b)).position (byteSize a + o) =
      ((ofText (a ++ b)).position (byteSize a)).behind ((ofText b).position o) := by
  obtain ⟨starts, hne, hle, hstarts⟩ := lineStarts_append a b
  have hsize : byteSize (a ++ b) = byteSize a + byteSize b := byteSize_append a b
  have hnone : (lineStarts b).tail.takeWhile (· ≤ 0) = [] := by
    cases h : (lineStarts b).tail with
    | nil => rfl
    | cons p later =>
      have hp : 0 < p := pos_of_mem_tail_lineStarts (h ▸ List.mem_cons_self)
      rw [List.takeWhile_cons_of_neg]
      rw [decide_eq_true_eq]
      omega
  have hcut := takeWhile_starts hle (lineStarts b).tail 0
  have hbehind := takeWhile_starts hle (lineStarts b).tail o
  rw [hnone, List.map_nil, List.append_nil, Nat.add_zero, ← hstarts] at hcut
  rw [← hstarts] at hbehind
  rw [position_ofText _ (by omega), position_ofText (a ++ b) (by omega), position_ofText b ho, hcut,
    hbehind, lineStarts_eq_cons b, List.takeWhile_cons_of_pos (by simp), List.tail_cons]
  have hlast : starts.getLastD 0 ≤ byteSize a := by
    rw [List.getLastD_eq_getLast?, List.getLast?_eq_some_getLast hne]
    exact hle _ (List.getLast_mem hne)
  unfold Position.behind
  dsimp only
  -- The line of the offset starts in the first part or behind the cut.
  rcases List.eq_nil_or_concat ((lineStarts b).tail.takeWhile (· ≤ o)) with
    hlater | ⟨before, p, hlater⟩
  · rw [hlater, if_pos (by simp), List.map_nil, List.append_nil, Position.mk.injEq]
    refine ⟨rfl, ?_⟩
    simp only [List.getLastD_cons, List.getLastD_nil]
    omega
  · rw [hlater, if_neg (by simp), Position.mk.injEq]
    simp only [List.concat_eq_append, List.map_append, List.map_cons, List.map_nil,
      ← List.append_assoc, List.getLastD_concat, List.length_append, List.length_map,
      List.length_cons, List.length_nil, List.getLastD_cons]
    omega

end LineIndex

end JavaHighlight
