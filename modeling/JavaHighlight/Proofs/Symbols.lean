import JavaHighlight.Proofs.Tiling.Scan

/-!
# Symbols in a source

Where a source goes on with a fixed spelling, and with neither a comment nor a number that starts
with a point, the lexeme is the symbol with the longest such spelling, and a symbol is always
read from its spelling (`Reader.read_spelled`).

What symbols start with starts no other lexeme but comments and numbers (`Symbol.plain_head`).
The rest is that `Symbol.longest?` finds the longest symbol.
-/

namespace JavaHighlight

/-- A shape has the longest one of all fixed spellings that the text starts with. -/
structure Shape.Munches (cs : List Char) (shape : Shape) (text : String) : Prop where
  spelled : shape.spelling? = some text
  starts : text.toList <+: cs
  length_le : ∀ (other : Shape) (word : String), other.spelling? = some word →
    word.toList <+: cs → word.length ≤ text.length

namespace Lexeme

/-- A text that starts with a comment, or with a number whose first character is a point. -/
def StartsOtherwise (cs : List Char) : Prop :=
  ['/', '/'] <+: cs ∨ ['/', '*'] <+: cs ∨ ∃ d, d.isDigit = true ∧ ['.', d] <+: cs

end Lexeme

namespace Symbol

theorem plain_head {s : Symbol} {c : Char} (h : s.spelling.toList.head? = some c) :
    isBlank c = false ∧ isWordStart c = false ∧ c.isDigit = false ∧ c ≠ '"' ∧ c ≠ '\'' := by
  have key : ∀ s ∈ all, s.spelling.toList.head?.all (fun c =>
      isBlank c = false ∧ isWordStart c = false ∧ c.isDigit = false ∧ c ≠ '"' ∧ c ≠ '\'') =
        true := by
    decide +kernel
  have hs := key s s.mem_all
  rw [h] at hs
  exact of_decide_eq_true hs

end Symbol

namespace Lexeme

/-- The longest symbol at the start of a text is its first lexeme, unless a comment or a number
starts there. -/
theorem measure_of_isLongest {cs : List Char} {s : Symbol} (h : Symbol.IsLongest cs s)
    (hother : ¬StartsOtherwise cs) : measure cs = (.symbol s, s.spelling.length) := by
  cases cs with
  | nil => cases s <;> cases h.starts
  | cons c cs =>
    obtain ⟨hblank, hword, hdigit, hdouble, hsingle⟩ :=
      Symbol.plain_head (Symbol.head?_spelling h.starts)
    have hcomment : ∀ d, d = '/' ∨ d = '*' → ¬['/', d] <+: c :: cs := by
      rintro d (rfl | rfl) hfront
      · exact hother (.inl hfront)
      · exact hother (.inr (.inl hfront))
    have hpoint : ¬(c = '.' && Number.startsWithDigit cs) = true := by
      rw [Bool.and_eq_true, decide_eq_true_eq]
      rintro ⟨rfl, hstarts⟩
      obtain ⟨d, hhead, hd⟩ := Option.any_eq_true _ _ |>.mp hstarts
      exact hother (.inr (.inr ⟨d, hd, prefix_of_head?_eq hhead⟩))
    rw [measure_of_not_comment hdouble hsingle hcomment, measurePlain, if_neg (by simp [hblank]),
      if_neg (by simp [hword]), if_neg (by simp [hdigit]), if_neg hpoint,
      Symbol.longest?_eq_some_iff.mpr h]

end Lexeme

theorem Shape.spelling?_eq_some_iff {shape : Shape} {text : String} :
    shape.spelling? = some text ↔ ∃ s : Symbol, shape = .symbol s ∧ text = s.spelling := by
  cases shape <;> simp [spelling?, eq_comm]

/-- The longest symbol has the longest of all fixed spellings. -/
theorem Symbol.IsLongest.munches {cs : List Char} {s : Symbol} (h : IsLongest cs s) :
    Shape.Munches cs (.symbol s) s.spelling := by
  refine ⟨rfl, startsText_iff.mp h.starts, fun other word hother hword => ?_⟩
  obtain ⟨t, -, rfl⟩ := Shape.spelling?_eq_some_iff.mp hother
  exact h.length_le t (startsText_iff.mpr hword)

namespace Reader

open Lexeme

/-- **Symbols are munched maximally.** Where the source goes on with some fixed spelling, and with
no comment and no number, the lexeme has the longest one. Every lexeme that has a fixed spelling
stands in the source with just this spelling. -/
theorem read_spelled (source : String) (offset : Nat) :
    let r := openAt source offset
    (∀ front rest : String, source = front ++ rest → front.utf8ByteSize = r.offset →
        (∃ (shape : Shape) (word : String),
          shape.spelling? = some word ∧ word.toList <+: rest.toList) →
        ¬StartsOtherwise rest.toList →
        ∃ text : String, r.lexeme.shape.Munches rest.toList text ∧
          r.lexeme.length = text.utf8ByteSize) ∧
      ∀ text : String, r.lexeme.shape.spelling? = some text →
        ∃ front rest : String, source = front ++ (text ++ rest) ∧
          front.utf8ByteSize = r.offset ∧ r.lexeme.text = text.toList := by
  intro r
  constructor
  · rintro front rest hsource hoffset ⟨shape, word, hshape, hword⟩ hother
    obtain ⟨t, -, rfl⟩ := Shape.spelling?_eq_some_iff.mp hshape
    have hstarts := Symbol.startsText_iff.mpr hword
    obtain ⟨s, hs⟩ := Option.ne_none_iff_exists'.mp (Symbol.longest?_ne_none hstarts)
    have hlongest := Symbol.longest?_eq_some_iff.mp hs
    obtain ⟨after, hafter⟩ := Symbol.startsText_iff.mp hlongest.starts
    have hl : r.lexeme = ⟨.symbol s, s.spelling.toList⟩ := by
      rw [lexeme_of_eq_append hsource hoffset, ← hafter]
      apply first_of_measure_eq
      rw [hafter, measure_of_isLongest hlongest hother, String.length_toList]
    refine ⟨s.spelling, ?_, ?_⟩
    · rw [hl]
      exact hlongest.munches
    · rw [hl, ← Text.byteSize_toList]
      rfl
  · intro text htext
    obtain ⟨s, hshape, rfl⟩ := Shape.spelling?_eq_some_iff.mp htext
    rcases lexeme_eq_stray_or source offset with hstray | ⟨front, rest, hsource, hoffset, hl⟩
    · rw [hstray] at htext
      cases htext
    · have hfirst : r.lexeme = first rest.toList := hl
      rw [hfirst] at hshape
      obtain ⟨hstarts, hlength⟩ := startsText_of_measure hshape
      obtain ⟨after, hafter⟩ := Symbol.startsText_iff.mp hstarts
      refine ⟨front, String.ofList after, ?_, hoffset, ?_⟩
      · rw [hsource, ← String.ofList_toList (s := rest), ← hafter, String.ofList_append,
          String.ofList_toList]
      · rw [hfirst, text_first, hlength, ← hafter, ← String.length_toList, List.take_left]

/-- Of the runs of closing angle brackets, the longest one is read, and it takes in the equals
sign behind it. -/
theorem read_spelled_shift :
    (Shape.symbol .greater).spelling? = some ">" ∧ ">".toList <+: ">>>=x".toList ∧
      ¬StartsOtherwise ">>>=x".toList ∧
      ∃ text : String, (openAt "a>>>=x" 1).lexeme.shape.Munches ">>>=x".toList text ∧
        (openAt "a>>>=x" 1).lexeme.length = text.utf8ByteSize := by
  have hother : ¬StartsOtherwise ">>>=x".toList := by
    rintro (⟨rest, h⟩ | ⟨rest, h⟩ | ⟨d, -, rest, h⟩) <;> cases h
  have hstarts : ">".toList <+: ">>>=x".toList := ⟨">>=x".toList, rfl⟩
  exact ⟨rfl, hstarts, hother, (read_spelled "a>>>=x" 1).1 "a" ">>>=x" rfl rfl
    ⟨.symbol .greater, ">", rfl, hstarts⟩ hother⟩

end Reader

end JavaHighlight
