import JavaHighlight.Proofs.Lines.Carry
import JavaHighlight.Proofs.Reformatting.Alone

/-!
# Lexemes joined by line feeds

A lexeme of a source is the only lexeme of its own text (`Lexeme.Whole`). The lexemes that count,
joined by line feeds, have between them nothing but these line feeds: a lexeme that counts ends
where its line does, unless it is a comment or a text block that lacks its end, and only the last
lexeme of a source can be one (`Lexeme.pairwise_closed`). So whatever a source is formatted like,
its significant lexemes stay the same (`Reader.lexemes_reformatted`).
-/

namespace JavaHighlight

namespace Lexeme

/-- A lexeme that is the first and only one of its text. -/
structure Whole (l : Lexeme) : Prop where
  nonempty : l.text ≠ []
  measured : measure l.text = (l.shape, l.text.length)

theorem whole_of_mem_ofText {cs : List Char} {l : Lexeme} (h : l ∈ ofText cs) : l.Whole := by
  obtain ⟨before, after, heq⟩ := List.append_of_mem h
  obtain ⟨rest, hmeasure, -⟩ := measure_of_ofText_eq heq
  have hne := text_ne_nil_of_mem_ofText h
  exact ⟨hne, measure_alone hne hmeasure⟩

theorem pairwise_closed (cs : List Char) :
    (ofText cs).Pairwise fun l _ => l.shape.isOpen = false := by
  induction cs using text_induction with
  | nil => exact .nil
  | cons c cs ih =>
    have hcons : ofText (c :: cs) = [] ++ first (c :: cs) :: _ := ofText_eq_cons c cs
    rw [ofText_eq_cons]
    exact .cons (fun l hl => Line.isOpen_of_ofText_eq hcons (List.ne_nil_of_mem hl)) ih

namespace Whole

variable {l : Lexeme}

theorem ofText_eq (h : l.Whole) : ofText l.text = [l] := by
  rw [ofText_of_measure h.nonempty h.measured, List.take_length, List.drop_length, ofText_nil]

/-- A lexeme that counts ends in front of a line feed, and the lexemes behind it are those of what
is left. -/
theorem ofText_append_lineFeed (h : l.Whole) (hsignificant : l.isSignificant = true)
    (hclosed : l.shape.isOpen = false) (rest : List Char) :
    ofText (l.text ++ '\n' :: rest) = l :: ofText ('\n' :: rest) := by
  have hmeasure : measure (l.text ++ '\n' :: rest) = (l.shape, l.text.length) := by
    cases atBorder (Text.AtLineEnd.of_isLineEnd (c := '\n') rfl l.text rest) h.nonempty with
    | inside _ hinside => rw [hinside, h.measured]
    | blank hblank _ =>
      have hshape : l.shape = .blank := congrArg Prod.fst (h.measured.symm.trans hblank)
      rw [isSignificant, hshape] at hsignificant
      cases hsignificant
    | construct construct hopen _ _ =>
      have hshape : l.shape = construct.openShape :=
        congrArg Prod.fst (h.measured.symm.trans hopen)
      rw [hshape, construct.isOpen_openShape] at hclosed
      cases hclosed
  rw [ofText_of_measure (by simp) hmeasure, List.take_left, List.drop_left]

theorem exists_cons (h : l.Whole) (hsignificant : l.isSignificant = true) :
    ∃ c cs, l.text = c :: cs ∧ isBlank c = false := by
  obtain ⟨c, cs, hcs⟩ := List.exists_cons_of_ne_nil h.nonempty
  refine ⟨c, cs, hcs, Bool.eq_false_iff.mpr fun hc => ?_⟩
  have hmeasure := h.measured
  rw [hcs, measure_of_isBlank hc] at hmeasure
  have hshape : .blank = l.shape := congrArg Prod.fst hmeasure
  rw [isSignificant, ← hshape] at hsignificant
  cases hsignificant

end Whole

theorem ofText_lineFeed {c : Char} (hc : isBlank c = false) (cs : List Char) :
    ofText ('\n' :: c :: cs) = ⟨.blank, ['\n']⟩ :: ofText (c :: cs) := by
  have hrun : Extent.run isBlank ('\n' :: c :: cs) = 1 := by
    rw [Extent.run_cons_of_pos (by decide), Extent.run_cons_of_neg hc]
  rw [ofText_of_measure (by simp) (measure_of_isBlank (by decide) _), hrun]
  rfl

/-- The texts of lexemes with a line feed between every two of them. -/
def joined (ls : List Lexeme) : List Char :=
  ['\n'].intercalate (ls.map text)

theorem joined_singleton (l : Lexeme) : joined [l] = l.text :=
  List.append_nil l.text

theorem joined_cons_cons (l m : Lexeme) (ls : List Lexeme) :
    joined (l :: m :: ls) = l.text ++ '\n' :: joined (m :: ls) := by
  simp [joined, List.intercalate]

theorem exists_joined_eq_append (l : Lexeme) (ls : List Lexeme) :
    ∃ rest, joined (l :: ls) = l.text ++ rest := by
  cases ls with
  | nil => exact ⟨[], rfl⟩
  | cons m ls => exact ⟨_, joined_cons_cons l m ls⟩

/-- Lexemes that count are what counts among the lexemes of the joined text. -/
theorem filter_ofText_joined {ls : List Lexeme}
    (hls : ∀ l ∈ ls, l.Whole ∧ l.isSignificant = true)
    (hclosed : ls.Pairwise fun l _ => l.shape.isOpen = false) :
    (ofText (joined ls)).filter isSignificant = ls := by
  induction ls with
  | nil => rfl
  | cons l ls ih =>
    obtain ⟨⟨hwhole, hsignificant⟩, hls⟩ := List.forall_mem_cons.mp hls
    obtain ⟨hl, hclosed⟩ := List.pairwise_cons.mp hclosed
    cases ls with
    | nil =>
      rw [joined_singleton, hwhole.ofText_eq, List.filter_cons_of_pos hsignificant, List.filter_nil]
    | cons m ls =>
      obtain ⟨hm, hmsignificant⟩ := hls m List.mem_cons_self
      obtain ⟨c, cs, hcs, hc⟩ := hm.exists_cons hmsignificant
      obtain ⟨rest, hrest⟩ := exists_joined_eq_append m ls
      have hblank : ofText ('\n' :: joined (m :: ls)) =
          ⟨.blank, ['\n']⟩ :: ofText (joined (m :: ls)) := by
        rw [hrest, hcs, List.cons_append, ofText_lineFeed hc]
      rw [joined_cons_cons, hwhole.ofText_append_lineFeed hsignificant (hl m List.mem_cons_self),
        hblank, List.filter_cons_of_pos hsignificant, List.filter_cons_of_neg (by decide),
        ih hls hclosed]

end Lexeme

namespace Reader

theorem lexemes_openAt_zero (source : String) :
    (openAt source 0).lexemes.1 = Lexeme.ofText source.toList := by
  show Lexeme.ofTextFrom (min 0 source.utf8ByteSize) source.toList = _
  rw [Nat.zero_min]
  exact Lexeme.ofTextFrom_append [] source.toList

/-- The texts of the lexemes that count in a source, with a line feed between every two of them. -/
def reformatted (source : String) : String :=
  String.intercalate "\n"
    (((openAt source 0).lexemes.1.filter Lexeme.isSignificant).map Lexeme.word)

theorem toList_reformatted (source : String) :
    (reformatted source).toList =
      Lexeme.joined ((Lexeme.ofText source.toList).filter Lexeme.isSignificant) := by
  have hword : String.toList ∘ Lexeme.word = Lexeme.text := by
    funext l
    exact String.toList_ofList
  rw [reformatted, lexemes_openAt_zero, String.toList_intercalate, List.map_map, hword]
  rfl

/-- **Lexemes survive reformatting.** The text of a lexeme on its own has just this lexeme, and the
texts of the lexemes that count, with a line feed between every two of them, have just these
lexemes that count. -/
theorem lexemes_reformatted (source : String) :
    (∀ l ∈ (openAt source 0).lexemes.1,
        (openAt l.word 0).lexemes.1 = [l] ∧ l.length = l.word.utf8ByteSize) ∧
      (openAt (reformatted source) 0).lexemes.1.filter Lexeme.isSignificant =
        (openAt source 0).lexemes.1.filter Lexeme.isSignificant := by
  rw [lexemes_openAt_zero source, lexemes_openAt_zero (reformatted source)]
  constructor
  · intro l hl
    have hword : l.word.toList = l.text := String.toList_ofList
    constructor
    · rw [lexemes_openAt_zero, hword, (Lexeme.whole_of_mem_ofText hl).ofText_eq]
    · rw [Lexeme.length_eq_byteSize hl, Text.byteSize_eq_utf8ByteSize]
      rfl
  · rw [toList_reformatted]
    refine Lexeme.filter_ofText_joined (fun l hl => ?_) ?_
    · obtain ⟨hmem, hsignificant⟩ := List.mem_filter.mp hl
      exact ⟨Lexeme.whole_of_mem_ofText hmem, hsignificant⟩
    · exact (Lexeme.pairwise_closed source.toList).filter _

/-- A lone backslash and a string without its end stay apart from what stood beside them. -/
example : (openAt "a\n\\\n\"c\nb" 0).lexemes.1.filter Lexeme.isSignificant =
    (openAt "a/**/\\\"c\n\n b" 0).lexemes.1.filter Lexeme.isSignificant := by
  decide +kernel

end Reader

end JavaHighlight
