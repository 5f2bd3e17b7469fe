import JavaHighlight.Lexeme.Basic

/-!
# Lexemes tile their text

A nonempty text starts with a lexeme of at least one character that stays within the text. So
the lexemes of a text, put together, are the text (`flatMap_text_ofText`), each of them is the
first lexeme of what is left in front of it (`ofText_eq_cons`), and their lengths add up to the
size of the text (`totalLength_ofText`).
-/

namespace JavaHighlight

/-! ## The first lexeme -/

theorem Symbol.startsText_of_longest? {cs : List Char} {s : Symbol}
    (h : Symbol.longest? cs = some s) : s.startsText cs = true :=
  (Symbol.longest?_eq_some_iff.mp h).starts

theorem Symbol.spelling_pos (s : Symbol) : 0 < s.spelling.length := by
  have key : ∀ s ∈ Symbol.all, 0 < s.spelling.length := by decide
  exact key s s.mem_all

theorem Symbol.spelling_length_le {cs : List Char} {s : Symbol} (h : s.startsText cs = true) :
    s.spelling.length ≤ cs.length := by
  have hpre := (List.isPrefixOf_iff_prefix.mp h).length_le
  rwa [String.length_toList] at hpre

theorem Comment.scanBlock_le (cs : List Char) : (Comment.scanBlock cs).2 ≤ 2 + cs.length := by
  rw [Comment.scanBlock]
  split
  · next n h =>
    have := Comment.closing?_le h
    simp only; omega
  · simp

theorem Comment.scanLine_le (cs : List Char) : (Comment.scanLine cs).2 ≤ 2 + cs.length := by
  have := Extent.bounded_run (fun c => !Text.isLineEnd c) cs
  simp only [Comment.scanLine]; omega

theorem Literal.scanDouble_le (cs : List Char) : (Literal.scanDouble cs).2 ≤ 1 + cs.length := by
  rw [Literal.scanDouble.eq_def]
  split
  · next cs =>
    have := Literal.blockContent_le cs
    simp only [List.length_cons]; omega
  · have := Literal.content_le '"' cs
    simp only; omega

theorem Literal.scanSingle_le (cs : List Char) : (Literal.scanSingle cs).2 ≤ 1 + cs.length := by
  have := Literal.content_le '\'' cs
  simp only [Literal.scanSingle]; omega

theorem Lexeme.measure_le (cs : List Char) : (Lexeme.measure cs).2 ≤ cs.length := by
  rw [Lexeme.measure.eq_def]
  split
  · simp
  · next cs => have := Comment.scanLine_le cs; simp only [List.length_cons]; omega
  · next cs => have := Comment.scanBlock_le cs; simp only [List.length_cons]; omega
  · next cs => have := Literal.scanDouble_le cs; simp only [List.length_cons]; omega
  · next cs => have := Literal.scanSingle_le cs; simp only [List.length_cons]; omega
  · next c cs _ _ _ _ =>
    split
    · have := Extent.bounded_run isBlank cs
      simp only [List.length_cons]; omega
    · split
      · have := Extent.bounded_run isWordPart cs
        simp only [List.length_cons]; omega
      · split
        · exact Number.scan_le (c :: cs)
        · split
          · have := Number.bounded_afterPoint cs
            simp only [snd_behind, Number.scanFraction, List.length_cons]; omega
          · split
            · next s h => exact s.spelling_length_le (Symbol.startsText_of_longest? h)
            · simp

theorem Lexeme.measure_pos (c : Char) (cs : List Char) : 0 < (Lexeme.measure (c :: cs)).2 := by
  rw [Lexeme.measure.eq_def]
  split
  · next h => cases h
  · simp only [Comment.scanLine]; omega
  · rw [Comment.scanBlock]; split <;> simp only <;> omega
  · rw [Literal.scanDouble.eq_def]; split <;> simp only <;> omega
  · simp only [Literal.scanSingle]; omega
  · next c' cs' _ _ _ _ heq =>
    obtain ⟨rfl, rfl⟩ := List.cons.inj heq
    split
    · simp only; omega
    · split
      · simp only; omega
      · split
        · next h => exact Number.scan_pos h cs
        · split
          · simp only [snd_behind]; omega
          · split
            · next s _ => exact s.spelling_pos
            · simp

theorem Number.scan_shape (cs : List Char) :
    (∃ radix, (Number.scan cs).1 = .integer radix) ∨ (Number.scan cs).1 = .float := by
  have hdecimal : ∀ cs, (∃ radix, (Number.decimal cs).1 = .integer radix) ∨
      (Number.decimal cs).1 = .float := by
    intro cs
    simp only [Number.decimal]
    split
    · exact .inl ⟨_, rfl⟩
    · split
      · exact .inr rfl
      · split
        · exact .inr rfl
        · split
          · exact .inr rfl
          · exact .inl ⟨_, rfl⟩
  rw [Number.scan.eq_def]
  split
  · split
    · simp only [fst_behind, Number.hexadecimal]
      split
      · exact .inl ⟨_, rfl⟩
      · exact .inr rfl
    · split
      · exact .inl ⟨_, rfl⟩
      · exact hdecimal _
  · exact hdecimal _

/-- Only a cut character leaves stray bytes, and no text of characters holds one. -/
theorem Lexeme.measure_ne_stray (cs : List Char) : (Lexeme.measure cs).1 ≠ .stray := by
  rw [Lexeme.measure.eq_def]
  split
  · simp
  · simp [Comment.scanLine]
  · rw [Comment.scanBlock]
    split
    · rw [Comment.closedShape.eq_def]; split <;> simp
    · rw [Comment.openShape.eq_def]; split <;> simp
  · rw [Literal.scanDouble.eq_def]
    split <;> simp only <;> split <;> simp
  · simp only [Literal.scanSingle]
    split <;> simp
  · next c cs _ _ _ _ =>
    split
    · simp
    · split
      · simp
      · split
        · rcases Number.scan_shape (c :: cs) with ⟨radix, h⟩ | h <;> simp [h]
        · split
          · simp [Number.scanFraction]
          · split <;> simp

/-! ## All lexemes -/

namespace Lexeme

theorem ofText_nil : ofText [] = [] := rfl

theorem ofText_eq_cons (c : Char) (cs : List Char) :
    ofText (c :: cs) =
      first (c :: cs) :: ofText ((c :: cs).drop (measure (c :: cs)).2) := by
  have hpos := measure_pos c cs
  obtain ⟨n, hn⟩ : ∃ n, (measure (c :: cs)).2 = n + 1 := ⟨_, (Nat.succ_pred_eq_of_pos hpos).symm⟩
  rw [ofText, ofTextAfter, ofTextAfter_eq, hn, Nat.add_sub_cancel, List.drop_succ_cons]

/-- What holds of the empty text, and of a text whenever it holds of what its first lexeme
leaves, holds of every text. -/
theorem text_induction {motive : List Char → Prop} (nil : motive [])
    (cons : ∀ c cs, motive ((c :: cs).drop (measure (c :: cs)).2) → motive (c :: cs))
    (cs : List Char) : motive cs := by
  match cs with
  | [] => exact nil
  | c :: cs =>
    have hpos := measure_pos c cs
    exact cons c cs (text_induction nil cons _)
termination_by cs.length
decreasing_by
  simp only [List.length_drop, List.length_cons]
  omega

@[simp] theorem text_first (cs : List Char) : (first cs).text = cs.take (measure cs).2 := rfl

@[simp] theorem shape_first (cs : List Char) : (first cs).shape = (measure cs).1 := rfl

/-- The texts of the lexemes, one behind the other, are the text. -/
theorem flatMap_text_ofText (cs : List Char) : (ofText cs).flatMap text = cs := by
  induction cs using text_induction with
  | nil => rfl
  | cons c cs ih => rw [ofText_eq_cons, List.flatMap_cons, ih, text_first, List.take_append_drop]

theorem exists_eq_first {cs : List Char} {l : Lexeme} (h : l ∈ ofText cs) :
    ∃ c ds, l = first (c :: ds) := by
  induction cs using text_induction with
  | nil => cases h
  | cons c cs ih =>
    rw [ofText_eq_cons, List.mem_cons] at h
    rcases h with rfl | h
    · exact ⟨c, cs, rfl⟩
    · exact ih h

/-- A lexeme of a text is what is measured where it stands, and the lexemes behind it are those of
the rest. -/
theorem measure_of_ofText_eq {cs : List Char} {before after : List Lexeme} {l : Lexeme}
    (h : ofText cs = before ++ l :: after) :
    ∃ rest, measure (l.text ++ rest) = (l.shape, l.text.length) ∧ after = ofText rest := by
  induction cs using text_induction generalizing before with
  | nil => simp [ofText_nil] at h
  | cons c cs ih =>
    rw [ofText_eq_cons] at h
    cases before with
    | nil =>
      obtain ⟨rfl, hafter⟩ := List.cons.inj h
      refine ⟨_, ?_, hafter.symm⟩
      rw [text_first, List.take_append_drop, shape_first, List.length_take_of_le (measure_le _)]
    | cons first before => exact ih (List.cons.inj h).2

theorem text_ne_nil_of_mem_ofText {cs : List Char} {l : Lexeme} (h : l ∈ ofText cs) :
    l.text ≠ [] := by
  obtain ⟨c, ds, rfl⟩ := exists_eq_first h
  have hpos := measure_pos c ds
  intro hnil
  rw [text_first, List.take_eq_nil_iff] at hnil
  rcases hnil with h0 | h0
  · omega
  · simp at h0

theorem shape_ne_stray_of_mem_ofText {cs : List Char} {l : Lexeme} (h : l ∈ ofText cs) :
    l.shape ≠ .stray := by
  obtain ⟨c, ds, rfl⟩ := exists_eq_first h
  exact measure_ne_stray _

theorem length_eq_byteSize {cs : List Char} {l : Lexeme} (h : l ∈ ofText cs) :
    l.length = Text.byteSize l.text :=
  if_neg (shape_ne_stray_of_mem_ofText h)

theorem totalLength_eq_byteSize {ls : List Lexeme}
    (h : ∀ l ∈ ls, l.length = Text.byteSize l.text) :
    totalLength ls = Text.byteSize (ls.flatMap text) := by
  induction ls with
  | nil => rfl
  | cons l ls ih =>
    rw [List.forall_mem_cons] at h
    rw [totalLength_cons, List.flatMap_cons, Text.byteSize_append, h.1, ih h.2]

theorem totalLength_ofText (cs : List Char) : totalLength (ofText cs) = Text.byteSize cs := by
  rw [totalLength_eq_byteSize fun l hl => length_eq_byteSize hl, flatMap_text_ofText]

end Lexeme

end JavaHighlight
