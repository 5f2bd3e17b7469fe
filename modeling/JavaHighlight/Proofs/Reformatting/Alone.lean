import JavaHighlight.Proofs.Literals.Quoted
import JavaHighlight.Proofs.Literals.TextBlocks
import JavaHighlight.Proofs.Numbers.Alone

/-!
# Lexemes on their own

A lexeme is measured as it is also if nothing follows it (`Lexeme.measure_alone`): what the
scanner looks at behind a lexeme only keeps the lexeme from reaching further.
-/

namespace JavaHighlight

open Text (isLineEnd)

variable {u v rest cs : List Char} {shape : Shape} {n : Nat}

/-! ## Comments and text blocks -/

theorem Comment.two_le_closing? (h : closing? cs = some n) : 2 ≤ n := by
  fun_induction closing? cs generalizing n with
  | case1 => cases h
  | case2 cs => exact Nat.le_of_eq (Option.some.inj h)
  | case3 c cs _ ih =>
    obtain ⟨m, hm, rfl⟩ := Option.map_eq_some_iff.mp h
    exact Nat.le_succ_of_le (ih hm)

theorem Comment.closing?_of_append (h : closing? (u ++ v) = some n) (hn : n ≤ u.length) :
    closing? u = some n := by
  have htwo := two_le_closing? h
  fun_induction closing? u generalizing n with
  | case1 => exact absurd (Nat.le_trans htwo hn) (by decide)
  | case2 cs => exact h
  | case3 c cs hclosing ih =>
    have hclosing' : ∀ rest, c = '*' → cs ++ v = '/' :: rest → False := by
      rintro rest rfl heq
      cases cs with
      | nil => exact absurd (Nat.le_trans htwo hn) (by decide)
      | cons d cs => exact hclosing cs rfl (by rw [(List.cons.inj heq).1])
    rw [List.cons_append, closing?.eq_3 _ _ hclosing'] at h
    obtain ⟨m, hm, rfl⟩ := Option.map_eq_some_iff.mp h
    rw [ih hm (Nat.le_of_succ_le_succ hn) (two_le_closing? hm)]
    rfl

namespace TextBlock

theorem FoundIn.eq {first second : Option Nat} (h : FoundIn cs first) (h' : FoundIn cs second) :
    first = second := by
  cases first with
  | none =>
    cases second with
    | none => rfl
    | some n =>
      obtain ⟨content, hcontent, -⟩ := h'
      exact absurd hcontent.ends (h content)
  | some m =>
    obtain ⟨content, hcontent, rfl⟩ := h
    cases second with
    | none => exact absurd hcontent.ends (h' content)
    | some n =>
      obtain ⟨content', hcontent', rfl⟩ := h'
      rw [Nat.le_antisymm (hcontent.length_le _ hcontent'.ends)
        (hcontent'.length_le _ hcontent.ends)]

theorem EndsBehind.append {content : List Char} (h : EndsBehind u content) (v : List Char) :
    EndsBehind (u ++ v) content :=
  ⟨h.quotes.trans (List.prefix_append u v), h.unescaped⟩

theorem Content.of_append {content : List Char} (h : Content (u ++ v) content)
    (hlength : content.length + 3 ≤ u.length) : Content u content := by
  refine ⟨⟨?_, h.ends.unescaped⟩, fun other hother => h.length_le other (hother.append v)⟩
  refine List.prefix_of_prefix_length_le h.ends.quotes (List.prefix_append u v) ?_
  rwa [List.length_append]

end TextBlock

namespace Construct

open TextBlock

theorem end?_of_append (construct : Construct) (h : construct.end? (u ++ v) = some n)
    (hn : n ≤ u.length) : construct.end? u = some n := by
  cases construct with
  | textBlock =>
    have hfound := foundIn_textBlockEnd? (u ++ v)
    rw [show textBlockEnd? (u ++ v) = some n from h] at hfound
    obtain ⟨content, hcontent, rfl⟩ := hfound
    exact (foundIn_textBlockEnd? u).eq ⟨content, hcontent.of_append hn, rfl⟩
  | _ => exact Comment.closing?_of_append h hn

theorem end?_of_carriedLength {construct : Construct}
    (h : Line.carriedLength (some construct) (u ++ rest) = u.length) :
    rest = [] ∨ construct.end? (u ++ rest) = some u.length := by
  cases hend : construct.end? (u ++ rest) with
  | none =>
    left
    rwa [(shapeIn_of_end?_eq_none hend).2, List.length_append, Nat.add_eq_left,
      List.length_eq_zero_iff] at h
  | some n =>
    right
    unfold Line.carriedLength at h
    dsimp only at h
    rwa [hend, Option.getD_some, ← Option.some_inj] at h

theorem shapeIn_alone (construct : Construct)
    (h : Line.carriedLength (some construct) (u ++ rest) = u.length) :
    construct.shapeIn u = construct.shapeIn (u ++ rest) ∧
      Line.carriedLength (some construct) u = u.length := by
  rcases end?_of_carriedLength h with rfl | hend
  · rw [List.append_nil] at h ⊢
    exact ⟨rfl, h⟩
  · have halone := end?_of_append construct hend (Nat.le_refl _)
    unfold shapeIn Line.carriedLength
    dsimp only
    rw [hend, halone]
    exact ⟨rfl, rfl⟩

/-- What a comment is shows in the two characters that its end takes up at least. -/
theorem ofComment_alone
    (h : Line.carriedLength (some (ofComment (u ++ rest))) (u ++ rest) = u.length) :
    ofComment u = ofComment (u ++ rest) := by
  rcases end?_of_carriedLength h with rfl | hend
  · rw [List.append_nil]
  · rw [end?_ofComment] at hend
    match u, Comment.two_le_closing? hend with
    | c :: d :: cs, _ =>
      rw [List.cons_append, List.cons_append, ofComment_cons_cons, ofComment_cons_cons]

end Construct

theorem Comment.scanBlock_alone (h : scanBlock (u ++ rest) = (shape, 2 + u.length)) :
    scanBlock u = (shape, 2 + u.length) := by
  rw [scanBlock_eq] at h ⊢
  obtain ⟨hshape, hlength⟩ := Prod.mk.inj h
  have hcarried := Nat.add_left_cancel hlength
  obtain ⟨hshape', hlength'⟩ := Construct.shapeIn_alone _ hcarried
  rw [Construct.ofComment_alone hcarried, hshape', hlength', hshape]

theorem Comment.scanLine_alone (h : scanLine (u ++ rest) = (shape, 2 + u.length)) :
    scanLine u = (shape, 2 + u.length) := by
  obtain ⟨rfl, hlength⟩ := Prod.mk.inj h
  rw [scanLine, (Extent.cutStable_run _).alone (Nat.add_left_cancel hlength)]

/-! ## Literals in quotes -/

namespace Literal

variable {quote : Char} {closed : Bool}

theorem content_pos (h : (content quote cs).1 = true) : 0 < (content quote cs).2 := by
  fun_induction content quote cs with
  | case1 => cases h
  | case2 => cases h
  | case3 => exact Nat.one_pos
  | case4 => exact Nat.add_pos_left Nat.two_pos _
  | case5 => exact Nat.one_pos
  | case6 => cases h
  | case7 => exact Nat.add_pos_left Nat.one_pos _

/-- A literal that is measured up to some place is measured up to there also if the text ends
there: in front of that place, nothing stops the scanner. -/
theorem content_alone (h : content quote (u ++ rest) = (closed, u.length)) :
    content quote u = (closed, u.length) := by
  fun_induction content quote u generalizing closed with
  | case1 =>
    cases closed with
    | false => rfl
    | true =>
      have hpos := content_pos (congrArg Prod.fst h)
      rw [congrArg Prod.snd h] at hpos
      cases hpos
  | case2 =>
    cases rest with
    | nil => exact h
    | cons d rest =>
      rw [List.singleton_append, content] at h
      split_ifs at h with hline
      · exact h
      · have := congrArg Prod.snd h
        rw [snd_behind, List.length_singleton] at this
        omega
  | case3 c cs hline => rwa [List.cons_append, List.cons_append, content, if_pos hline] at h
  | case4 c cs hline ih =>
    rw [List.cons_append, List.cons_append, content, if_neg hline] at h
    have hlength : ('\\' :: c :: cs).length = 2 + cs.length := Nat.add_comm cs.length 2
    rw [hlength, behind_eq_iff] at h ⊢
    exact ih h
  | case5 cs hlone hpair =>
    rwa [List.cons_append, content_cons (ne_backslash hlone hpair), if_pos rfl] at h
  | case6 c cs hlone hpair hne hline =>
    rwa [List.cons_append, content_cons (ne_backslash hlone hpair), if_neg hne, if_pos hline] at h
  | case7 c cs hlone hpair hne hline ih =>
    rw [List.cons_append, content_cons (ne_backslash hlone hpair), if_neg hne, if_neg hline] at h
    rw [List.length_cons, Nat.add_comm, behind_eq_iff] at h ⊢
    exact ih h

end Literal

/-! ## Symbols -/

namespace Symbol

theorem startsText_append {s : Symbol} (h : s.startsText u = true) (v : List Char) :
    s.startsText (u ++ v) = true :=
  startsText_iff.mpr ((startsText_iff.mp h).trans (List.prefix_append u v))

theorem longest?_alone {s : Symbol} (h : longest? (u ++ rest) = some s)
    (hlength : s.spelling.length = u.length) : longest? u = some s := by
  obtain ⟨hstarts, hlongest⟩ := longest?_eq_some_iff.mp h
  refine longest?_eq_some_iff.mpr ⟨startsText_iff.mpr ?_, fun t ht =>
    hlongest t (startsText_append ht rest)⟩
  refine List.prefix_of_prefix_length_le (startsText_iff.mp hstarts) (List.prefix_append u rest) ?_
  exact Nat.le_of_eq (String.length_toList.trans hlength)

theorem longest?_eq_none_of_append (h : longest? (u ++ rest) = none) : longest? u = none := by
  cases hu : longest? u with
  | none => rfl
  | some s =>
    have hstarts := (longest?_eq_some_iff.mp hu).starts
    exact absurd h (longest?_ne_none (startsText_append hstarts rest))

end Symbol

/-! ## Lexemes -/

namespace Lexeme

open Extent

theorem measurePlain_alone {c : Char}
    (h : measurePlain c (cs ++ rest) = (shape, cs.length + 1)) :
    measurePlain c cs = (shape, cs.length + 1) := by
  have hrun : ∀ {p : Char → Bool}, 1 + run p (cs ++ rest) = cs.length + 1 →
      1 + run p cs = cs.length + 1 := by
    intro p hlength
    rw [Nat.add_comm, Nat.add_right_cancel_iff] at hlength
    rw [(cutStable_run p).alone hlength, Nat.add_comm]
  unfold measurePlain at h ⊢
  split_ifs at h with hblank hword hdigit hpoint
  · obtain ⟨rfl, hlength⟩ := Prod.mk.inj h
    rw [if_pos hblank, hrun hlength]
  · obtain ⟨rfl, hlength⟩ := Prod.mk.inj h
    rw [if_neg hblank, if_pos hword, hrun hlength]
  · rw [if_neg hblank, if_neg hword, if_pos hdigit]
    exact Number.scan_alone h
  · rw [if_neg hblank, if_neg hword, if_neg hdigit]
    rw [Nat.add_comm, behind_eq_iff] at h
    obtain ⟨rfl, hlength⟩ := Prod.mk.inj h
    obtain ⟨hc, hstarts⟩ := Bool.and_eq_true_iff.mp hpoint
    have hpoint' := Bool.and_eq_true_iff.mpr ⟨hc, Number.startsWithDigit_alone hstarts hlength⟩
    rw [if_pos hpoint', Nat.add_comm, behind_eq_iff, Number.scanFraction,
      Number.cutStable_afterPoint.alone hlength]
  · have hpoint' : ¬(c = '.' && Number.startsWithDigit cs) = true := by
      refine mt (fun hpoint => ?_) hpoint
      obtain ⟨hc, hstarts⟩ := Bool.and_eq_true_iff.mp hpoint
      exact Bool.and_eq_true_iff.mpr ⟨hc, Number.any_head?_append hstarts rest⟩
    rw [if_neg hblank, if_neg hword, if_neg hdigit, if_neg hpoint']
    cases hsymbol : Symbol.longest? (c :: (cs ++ rest)) with
    | some s =>
      rw [hsymbol] at h
      rw [Symbol.longest?_alone (u := c :: cs) hsymbol (congrArg Prod.snd h)]
      exact h
    | none =>
      rw [hsymbol] at h
      rw [Symbol.longest?_eq_none_of_append (u := c :: cs) hsymbol]
      exact h

theorem measure_comment_alone {d : Char} {ds : List Char} (hd : d = '/' ∨ d = '*')
    (hds : ['/', d] ++ ds = u ++ rest) (h : measure (u ++ rest) = (shape, u.length)) :
    measure u = (shape, u.length) := by
  have hlong : 2 ≤ u.length := by
    rw [← hds] at h
    rw [← show (measure (['/', d] ++ ds)).2 = u.length from congrArg Prod.snd h]
    rcases hd with rfl | rfl
    · exact Nat.le_add_right 2 _
    · rw [show measure (['/', '*'] ++ ds) = _ from Comment.scanBlock_eq ds]
      exact Nat.le_add_right 2 _
  obtain ⟨tail, rfl, rfl⟩ := exists_of_front hds hlong
  have hlength : (['/', d] ++ tail).length = 2 + tail.length := List.length_append
  rw [hlength, List.append_assoc] at h
  rw [hlength]
  rcases hd with rfl | rfl
  · exact Comment.scanLine_alone h
  · exact Comment.scanBlock_alone h

theorem measure_textBlock_alone {ds : List Char} (hds : TextBlock.delimiter ++ ds = u ++ rest)
    (h : measure (u ++ rest) = (shape, u.length)) : measure u = (shape, u.length) := by
  have hmeasure : ∀ ds, measure (TextBlock.delimiter ++ ds) =
      (Construct.textBlock.shapeIn ds, 3 + Line.carriedLength (some .textBlock) ds) :=
    Literal.scanDouble_eq
  have hlong : TextBlock.delimiter.length ≤ u.length := by
    rw [← hds, hmeasure] at h
    rw [← show _ = u.length from congrArg Prod.snd h]
    exact Nat.le_add_right 3 _
  obtain ⟨tail, rfl, rfl⟩ := exists_of_front hds hlong
  have hlength : (TextBlock.delimiter ++ tail).length = 3 + tail.length := List.length_append
  rw [hlength, List.append_assoc, hmeasure] at h
  rw [hlength, hmeasure]
  obtain ⟨rfl, hcarried⟩ := Prod.mk.inj h
  obtain ⟨hshape, hcarried'⟩ := Construct.shapeIn_alone _ (Nat.add_left_cancel hcarried)
  rw [hshape, hcarried']

theorem measure_quoted_alone {form : LiteralForm}
    (hform : form = .character ∨ form = .string ∧ ¬['"', '"'] <+: cs ++ rest)
    (h : measure (form.quote :: (cs ++ rest)) = (shape, cs.length + 1)) :
    measure (form.quote :: cs) = (shape, cs.length + 1) := by
  have hform' : form = .character ∨ form = .string ∧ ¬['"', '"'] <+: cs :=
    hform.imp_right (And.imp_right (mt fun hquotes => hquotes.trans (List.prefix_append cs rest)))
  rw [measure_quoted hform] at h
  obtain ⟨rfl, hlength⟩ := Prod.mk.inj h
  have hcontent : Literal.content form.quote (cs ++ rest) =
      ((Literal.content form.quote (cs ++ rest)).1, cs.length) := Prod.ext rfl (by omega)
  rw [measure_quoted hform', Literal.content_alone hcontent, Nat.add_comm]

/-- A lexeme is the same lexeme without what follows it. -/
theorem measure_alone (hne : u ≠ []) (h : measure (u ++ rest) = (shape, u.length)) :
    measure u = (shape, u.length) := by
  obtain ⟨c, cs, rfl⟩ := List.exists_cons_of_ne_nil hne
  by_cases hcomment : ∃ d, (d = '/' ∨ d = '*') ∧ ['/', d] <+: c :: cs ++ rest
  · obtain ⟨d, hd, ds, hds⟩ := hcomment
    exact measure_comment_alone hd hds h
  by_cases hblock : TextBlock.delimiter <+: c :: cs ++ rest
  · obtain ⟨ds, hds⟩ := hblock
    exact measure_textBlock_alone hds h
  by_cases hsingle : c = '\''
  · subst hsingle
    exact measure_quoted_alone (.inl rfl) h
  by_cases hdouble : c = '"'
  · subst hdouble
    have hquotes : ¬['"', '"'] <+: cs ++ rest :=
      mt (fun hquotes => List.cons_prefix_cons.mpr ⟨rfl, hquotes⟩) hblock
    exact measure_quoted_alone (.inr ⟨(rfl : LiteralForm.string = .string), hquotes⟩) h
  have hcomment' : ∀ d, d = '/' ∨ d = '*' → ¬['/', d] <+: c :: cs := fun d hd hfront =>
    hcomment ⟨d, hd, hfront.trans (List.prefix_append (c :: cs) rest)⟩
  have hplain : measure (c :: (cs ++ rest)) = measurePlain c (cs ++ rest) :=
    measure_of_not_comment hdouble hsingle fun d hd hfront => hcomment ⟨d, hd, hfront⟩
  rw [List.cons_append, hplain] at h
  rw [measure_of_not_comment hdouble hsingle hcomment']
  exact measurePlain_alone h

end Lexeme

end JavaHighlight
