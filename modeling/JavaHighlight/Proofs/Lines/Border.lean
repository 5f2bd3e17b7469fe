import JavaHighlight.Proofs.LineReading
import JavaHighlight.Proofs.Lines.Locality

/-!
# Lexemes at the end of a line

A lexeme that reaches over the end of a line is blank or a construct. Behind the border, which
lies behind the terminator of the line, in front of it or within it, the lexeme goes on as the
blank that stands there, or as far as the construct that is left open (`Lexeme.atBorder`).
-/

namespace JavaHighlight

open Text (AtLineEnd LineBorder isLineEnd)

/-! ## Constructs -/

/-- The shapes of constructs that lack their end. -/
def Shape.isOpen : Shape → Bool
  | .unterminatedTextBlock | .unterminatedBlockComment | .unterminatedNativeBlock => true
  | _ => false

namespace Construct

theorem ofLexeme?_eq_none_iff {l : Lexeme} : ofLexeme? l = none ↔ l.shape.isOpen = false := by
  unfold ofLexeme? Shape.isOpen
  cases l.shape with
  | unterminatedBlockComment => dsimp only; split <;> simp
  | _ => simp

def closedShape : Construct → Shape
  | .blockComment => .blockComment
  | .javadoc => .javadocComment
  | .nativeBlock => .nativeBlock
  | .textBlock => .textBlock

def openShape : Construct → Shape
  | .blockComment | .javadoc => .unterminatedBlockComment
  | .nativeBlock => .unterminatedNativeBlock
  | .textBlock => .unterminatedTextBlock

/-- The shape of a construct that goes on with the given text. -/
def shapeIn (construct : Construct) (cs : List Char) : Shape :=
  if construct.end? cs = none then construct.openShape else construct.closedShape

theorem isOpen_closedShape (construct : Construct) : construct.closedShape.isOpen = false := by
  cases construct <;> rfl

theorem isOpen_openShape (construct : Construct) : construct.openShape.isOpen = true := by
  cases construct <;> rfl

theorem shape_of_ofLexeme? {construct : Construct} {l : Lexeme}
    (h : ofLexeme? l = some construct) : l.shape = construct.openShape := by
  unfold ofLexeme? at h
  cases hshape : l.shape with
  | unterminatedBlockComment =>
    rw [hshape] at h
    dsimp only at h
    split_ifs at h <;> cases h <;> rfl
  | unterminatedNativeBlock | unterminatedTextBlock =>
    rw [hshape] at h
    cases h
    rfl
  | _ =>
    rw [hshape] at h
    cases h

/-- The comment that starts with `/*` and goes on with the given text. -/
def ofComment : List Char → Construct
  | '-' :: '\x7b' :: _ => .nativeBlock
  | '*' :: '/' :: _ => .blockComment
  | '*' :: _ => .javadoc
  | _ => .blockComment

theorem closing?_append {u v : List Char} (h : LineBorder u v) :
    Comment.closing? (u ++ v) =
      (Comment.closing? u).or ((Comment.closing? v).map (· + u.length)) := by
  fun_induction Comment.closing? u with
  | case1 => simp
  | case2 cs => rfl
  | case3 c cs hclosing ih =>
    have hclosing' : ∀ cs', c = '*' → cs ++ v = '/' :: cs' → False := by
      rintro cs' rfl heq
      have hborder := (h.atLineEnd (List.cons_ne_nil _ cs)).tail (by decide)
      obtain ⟨ds, rfl⟩ := hborder.exists_cons heq (by decide)
      exact hclosing ds rfl rfl
    rw [List.cons_append, Comment.closing?.eq_3 _ _ hclosing', ih h.tail]
    cases Comment.closing? cs with
    | some n => rfl
    | none => simp [Function.comp_def, Nat.add_assoc]

/-- A line end is no part of what ends a text block. -/
theorem textBlockEnd?_cons_of_isLineEnd {c : Char} (hc : isLineEnd c = true) (cs : List Char) :
    textBlockEnd? (c :: cs) = (textBlockEnd? cs).map (· + 1) := by
  rcases Text.eq_of_isLineEnd hc with rfl | rfl <;>
    exact textBlockEnd?.eq_4 _ _ (by simp) (by simp)

theorem textBlockEnd?_append {u v : List Char} (h : LineBorder u v) :
    textBlockEnd? (u ++ v) = (textBlockEnd? u).or ((textBlockEnd? v).map (· + u.length)) := by
  fun_induction textBlockEnd? u with
  | case1 => simp
  | case2 c cs ih =>
    rw [List.cons_append, List.cons_append, textBlockEnd?, ih h.tail.tail]
    cases textBlockEnd? cs with
    | some n => rfl
    | none => simp [Function.comp_def, Nat.add_assoc]
  | case3 cs => rfl
  | case4 c cs hback hquotes ih =>
    have hborder := h.atLineEnd (List.cons_ne_nil c cs)
    by_cases hlone : c = '\\' ∧ cs = []
    · -- The backslash takes in the terminator behind the border.
      obtain ⟨rfl, rfl⟩ := hlone
      obtain ⟨d, ds, rfl, hd⟩ := (hborder.tail (by decide)).of_nil
      show textBlockEnd? ('\\' :: d :: ds) = _
      rw [textBlockEnd?, textBlockEnd?_cons_of_isLineEnd hd]
      simp [Function.comp_def, textBlockEnd?]
    have hback' : ∀ d ds, c = '\\' → cs ++ v = d :: ds → False := by
      rintro d ds rfl -
      obtain ⟨e, es, rfl⟩ := List.exists_cons_of_ne_nil fun hnil => hlone ⟨rfl, hnil⟩
      exact hback e es rfl rfl
    have hquotes' : ∀ ds, c = '"' → cs ++ v = '"' :: '"' :: ds → False := by
      rintro ds rfl heq
      have hrest := hborder.tail (by decide)
      obtain ⟨ds', rfl⟩ := hrest.exists_cons heq (by decide)
      obtain ⟨-, heq'⟩ := List.cons.inj heq
      obtain ⟨ds'', rfl⟩ := (hrest.tail (by decide)).exists_cons heq' (by decide)
      exact hquotes ds'' rfl rfl
    rw [List.cons_append, textBlockEnd?.eq_4 _ _ hback' hquotes', ih h.tail]
    cases textBlockEnd? cs with
    | some n => rfl
    | none => simp [Function.comp_def, Nat.add_assoc]

/-- A construct that does not end in front of a border ends where it ends behind the border. -/
theorem end?_append (construct : Construct) {u v : List Char} (h : LineBorder u v) :
    construct.end? (u ++ v) =
      (construct.end? u).or ((construct.end? v).map (· + u.length)) := by
  cases construct with
  | textBlock => exact textBlockEnd?_append h
  | _ => exact closing?_append h

theorem ofComment_cons_cons (c d : Char) (cs : List Char) :
    ofComment (c :: d :: cs) =
      if c = '-' ∧ d = '\x7b' then .nativeBlock
      else if c = '*' then if d = '/' then .blockComment else .javadoc
      else .blockComment := by
  by_cases hnative : c = '-' ∧ d = '\x7b'
  · obtain ⟨rfl, rfl⟩ := hnative
    rfl
  rw [if_neg hnative]
  by_cases hstar : c = '*'
  · subst hstar
    by_cases hslash : d = '/'
    · subst hslash
      rfl
    · rw [if_pos rfl, if_neg hslash]
      exact ofComment.eq_3 _ fun _ h => hslash (List.cons.inj h).1
  · rw [if_neg hstar]
    refine ofComment.eq_4 _ ?_ ?_ ?_
    · intro _ h
      obtain ⟨hc, h⟩ := List.cons.inj h
      exact hnative ⟨hc, (List.cons.inj h).1⟩
    · exact fun _ h => hstar (List.cons.inj h).1
    · exact fun _ h => hstar (List.cons.inj h).1

theorem stopsAtLineEnd_ofComment : StopsAtLineEnd ofComment := by
  intro u c hc v
  match u with
  | [] => rcases Text.eq_of_isLineEnd hc with rfl | rfl <;> rfl
  | [d] =>
    have hbrace : ¬(d = '-' ∧ c = '\x7b') := by
      rintro ⟨-, rfl⟩
      cases hc
    have hslash : c ≠ '/' := by
      rintro rfl
      cases hc
    rw [List.singleton_append, ofComment_cons_cons, if_neg hbrace, if_neg hslash]
    by_cases hd : d = '*'
    · rw [if_pos hd, hd]
      rfl
    · rw [if_neg hd]
      exact (ofComment.eq_4 [d] (by simp) (by simp) (by simpa using hd)).symm
  | d :: e :: u =>
    rw [List.cons_append, List.cons_append, ofComment_cons_cons, ofComment_cons_cons]

/-- What goes on with a construct is as long in the text as it is told by where it ends. -/
theorem shapeIn_append (construct : Construct) {u v : List Char} (h : LineBorder u v)
    (hopen : construct.end? u = none) :
    construct.shapeIn (u ++ v) = construct.shapeIn v ∧
      Line.carriedLength (some construct) (u ++ v) =
        u.length + Line.carriedLength (some construct) v := by
  have hend : construct.end? (u ++ v) = (construct.end? v).map (· + u.length) := by
    rw [end?_append construct h, hopen, Option.none_or]
  unfold shapeIn Line.carriedLength
  dsimp only
  rw [hend]
  cases construct.end? v with
  | none => exact ⟨rfl, List.length_append⟩
  | some n => exact ⟨rfl, Nat.add_comm _ _⟩

theorem shapeIn_append_of_end? (construct : Construct) {u v : List Char} (h : LineBorder u v)
    {n : Nat} (hend : construct.end? u = some n) :
    construct.shapeIn (u ++ v) = construct.shapeIn u ∧
      Line.carriedLength (some construct) (u ++ v) =
        Line.carriedLength (some construct) u := by
  have hend' : construct.end? (u ++ v) = some n := by
    rw [end?_append construct h, hend, Option.some_or]
  unfold shapeIn Line.carriedLength
  dsimp only
  rw [hend, hend']
  exact ⟨rfl, rfl⟩

theorem shapeIn_of_end?_eq_none {construct : Construct} {cs : List Char}
    (h : construct.end? cs = none) :
    construct.shapeIn cs = construct.openShape ∧
      Line.carriedLength (some construct) cs = cs.length := by
  unfold shapeIn Line.carriedLength
  dsimp only
  rw [h, if_pos rfl, Option.getD_none]
  exact ⟨rfl, rfl⟩

end Construct

/-! ## The measurements of comments and text blocks -/

theorem Construct.closedShape_ofComment (cs : List Char) :
    (Construct.ofComment cs).closedShape = Comment.closedShape cs := by
  fun_cases Construct.ofComment cs with
  | case1 => rfl
  | case2 => rfl
  | case3 cs h => exact (Comment.closedShape.eq_3 cs h).symm
  | case4 cs h h' h'' => exact (Comment.closedShape.eq_4 cs h h' h'').symm

theorem Construct.openShape_ofComment (cs : List Char) :
    (Construct.ofComment cs).openShape = Comment.openShape cs := by
  fun_cases Construct.ofComment cs with
  | case1 => rfl
  | case2 => rfl
  | case3 => rfl
  | case4 cs h => exact (Comment.openShape.eq_2 cs h).symm

theorem Construct.end?_ofComment (cs ds : List Char) :
    (Construct.ofComment cs).end? ds = Comment.closing? ds := by
  fun_cases Construct.ofComment cs <;> rfl

/-- A comment is measured as a construct that goes on behind its `/*`. -/
theorem Comment.scanBlock_eq (cs : List Char) :
    scanBlock cs = ((Construct.ofComment cs).shapeIn cs,
      2 + Line.carriedLength (some (Construct.ofComment cs)) cs) := by
  unfold scanBlock Construct.shapeIn Line.carriedLength
  dsimp only
  rw [Construct.end?_ofComment]
  cases closing? cs with
  | some n => rw [← Construct.closedShape_ofComment]; rfl
  | none => rw [← Construct.openShape_ofComment]; rfl

theorem Literal.blockContent_eq (cs : List Char) :
    blockContent cs = ((Construct.textBlockEnd? cs).isSome,
      (Construct.textBlockEnd? cs).getD cs.length) := by
  fun_induction blockContent cs with
  | case1 => rfl
  | case2 cs => rfl
  | case3 c cs hc ih =>
    rw [ih, Construct.textBlockEnd?_cons_of_isLineEnd hc, Construct.textBlockEnd?]
    cases Construct.textBlockEnd? cs with
    | some n => exact Prod.ext rfl (Nat.add_comm 1 (n + 1))
    | none => exact Prod.ext rfl (Nat.add_comm 1 (cs.length + 1))
  | case4 c cs hc ih =>
    rw [ih, Construct.textBlockEnd?]
    cases Construct.textBlockEnd? cs with
    | some n => exact Prod.ext rfl (Nat.add_comm 2 n)
    | none => exact Prod.ext rfl (Nat.add_comm 2 cs.length)
  | case5 c cs h h' ih =>
    rw [ih, Construct.textBlockEnd?.eq_4 _ _ h' h]
    cases Construct.textBlockEnd? cs with
    | some n => exact Prod.ext rfl (Nat.add_comm 1 n)
    | none => exact Prod.ext rfl (Nat.add_comm 1 cs.length)

theorem Literal.scanDouble_eq (cs : List Char) :
    scanDouble ('"' :: '"' :: cs) = (Construct.textBlock.shapeIn cs,
      3 + Line.carriedLength (some .textBlock) cs) := by
  show (if (blockContent cs).1 then Shape.textBlock else .unterminatedTextBlock,
    3 + (blockContent cs).2) = _
  rw [blockContent_eq]
  unfold Construct.shapeIn Line.carriedLength Construct.end?
  dsimp only
  cases Construct.textBlockEnd? cs <;> rfl

/-! ## The first lexeme -/

namespace Lexeme

/-- How the first lexeme of `u ++ v` lies to the border between the two texts. -/
inductive AtBorder (u v : List Char) : Prop
  /-- It lies in front of the border. -/
  | inside (hclosed : Construct.ofLexeme? (first u) = none) (h : measure (u ++ v) = measure u)
  /-- Blank characters go on behind the border. -/
  | blank (hu : measure u = (.blank, u.length))
      (h : measure (u ++ v) = (.blank, u.length + Extent.run isBlank v))
  /-- A construct goes on behind the border. -/
  | construct (construct : Construct) (hu : measure u = (construct.openShape, u.length))
      (hopen : Construct.ofLexeme? (first u) = some construct)
      (h : measure (u ++ v) =
        (construct.shapeIn v, u.length + Line.carriedLength (some construct) v))

variable {u v : List Char}

/-- A text that starts with a construct, from what is measured behind its opening characters. -/
theorem AtBorder.of_construct (construct : Construct) (front : List Char) {rest : List Char}
    (hborder : LineBorder rest v)
    (hmeasure : ∀ w, w = [] ∨ w = v → measure (front ++ (rest ++ w)) =
      (construct.shapeIn (rest ++ w),
        front.length + Line.carriedLength (some construct) (rest ++ w)))
    (hopen : construct.end? rest = none → ∀ l : Lexeme, l.shape = construct.openShape →
      l.text = front ++ rest → Construct.ofLexeme? l = some construct) :
    AtBorder (front ++ rest) v := by
  have hfront := hmeasure [] (.inl rfl)
  have hwhole := hmeasure v (.inr rfl)
  rw [List.append_nil] at hfront
  cases hend : construct.end? rest with
  | some n =>
    obtain ⟨hshape, hlength⟩ := construct.shapeIn_append_of_end? hborder hend
    refine .inside (Construct.ofLexeme?_eq_none_iff.mpr ?_) ?_
    · rw [shape_first, hfront, Construct.shapeIn, if_neg (by rw [hend]; simp)]
      exact construct.isOpen_closedShape
    · rw [List.append_assoc, hwhole, hfront, hshape, hlength]
  | none =>
    obtain ⟨hshape, hlength⟩ := construct.shapeIn_append hborder hend
    obtain ⟨hshape', hlength'⟩ := Construct.shapeIn_of_end?_eq_none hend
    rw [hshape', hlength', ← List.length_append] at hfront
    refine .construct construct hfront (hopen hend _ ?_ ?_) ?_
    · rw [shape_first, hfront]
    · rw [text_first, hfront, List.take_length]
    · rw [List.append_assoc, hwhole, hshape, hlength, List.length_append, Nat.add_assoc]

/-- The measurement of a lexeme that is no comment and no literal in quotes. -/
def measurePlain (c : Char) (cs : List Char) : Shape × Nat :=
  if isBlank c then (.blank, 1 + Extent.run isBlank cs)
  else if isWordStart c then (.word, 1 + Extent.run isWordPart cs)
  else if c.isDigit then Number.scan (c :: cs)
  else if c = '.' && Number.startsWithDigit cs then behind 1 (Number.scanFraction cs)
  else match Symbol.longest? (c :: cs) with
    | some s => (.symbol s, s.spelling.length)
    | none => (.unknown, 1)

theorem measure_eq_measurePlain {c : Char} (hdouble : c ≠ '"') (hsingle : c ≠ '\'')
    {cs : List Char} (hslash : c = '/' → cs.head? ≠ some '/' ∧ cs.head? ≠ some '*') :
    measure (c :: cs) = measurePlain c cs := by
  refine measure.eq_6 c cs ?_ ?_ hdouble hsingle
  · rintro cs' rfl rfl
    exact (hslash rfl).1 rfl
  · rintro cs' rfl rfl
    exact (hslash rfl).2 rfl

theorem prefix_of_head?_eq {c d : Char} {cs : List Char} (h : cs.head? = some d) :
    [c, d] <+: c :: cs := by
  obtain ⟨ds, rfl⟩ := List.head?_eq_some_iff.mp h
  exact ⟨ds, rfl⟩

theorem measure_of_not_comment {c : Char} {cs : List Char} (hdouble : c ≠ '"') (hsingle : c ≠ '\'')
    (h : ∀ d, d = '/' ∨ d = '*' → ¬['/', d] <+: c :: cs) :
    measure (c :: cs) = measurePlain c cs := by
  refine measure_eq_measurePlain hdouble hsingle ?_
  rintro rfl
  exact ⟨fun hhead => h _ (.inl rfl) (prefix_of_head?_eq hhead),
    fun hhead => h _ (.inr rfl) (prefix_of_head?_eq hhead)⟩

theorem isBlank_of_isLineEnd {c : Char} (h : isLineEnd c = true) : isBlank c = true := by
  rcases Text.eq_of_isLineEnd h with rfl | rfl <;> rfl

theorem isOpen_measurePlain (c : Char) (cs : List Char) : (measurePlain c cs).1.isOpen = false := by
  unfold measurePlain
  split_ifs
  · rfl
  · rfl
  · rcases Number.scan_shape (c :: cs) with ⟨radix, h⟩ | h <;> rw [h] <;> rfl
  · rfl
  · split <;> rfl

theorem measurePlain_append {c : Char} {cs : List Char} (h : AtLineEnd (c :: cs) v)
    (hblank : ¬isBlank c = true) : measurePlain c (cs ++ v) = measurePlain c cs := by
  have hrest : AtLineEnd cs v :=
    h.tail (Bool.eq_false_iff.mpr fun hc => hblank (isBlank_of_isLineEnd hc))
  have hword : StopsAtLineEnd (Extent.run isWordPart) :=
    Extent.stopsAtLineEnd_run (by decide +kernel)
  have hscan := Number.stopsAtLineEnd_scan.append h
  have hsymbol := Symbol.stopsAtLineEnd_longest?.append h
  rw [List.cons_append] at hscan hsymbol
  unfold measurePlain Number.scanFraction
  rw [if_neg hblank, if_neg hblank, hword.append hrest, hscan,
    Number.stopsAtLineEnd_startsWithDigit.append hrest,
    Number.stopsAtLineEnd_afterPoint.append hrest, hsymbol]

theorem run_isBlank_append (u v : List Char) :
    Extent.run isBlank (u ++ v) =
      if Extent.run isBlank u = u.length then u.length + Extent.run isBlank v
      else Extent.run isBlank u := by
  unfold Extent.run
  rw [List.takeWhile_append]
  split_ifs
  · exact List.length_append
  · rfl

/-- A plain lexeme lies in front of the border or is blank. -/
theorem atBorder_of_measurePlain {c : Char} {cs : List Char} (hborder : AtLineEnd (c :: cs) v)
    (hfront : measure (c :: cs) = measurePlain c cs)
    (h : measure (c :: (cs ++ v)) = measurePlain c (cs ++ v)) : AtBorder (c :: cs) v := by
  have hinside : measurePlain c (cs ++ v) = measurePlain c cs → AtBorder (c :: cs) v := by
    intro heq
    refine .inside (Construct.ofLexeme?_eq_none_iff.mpr ?_) ?_
    · rw [shape_first, hfront]
      exact isOpen_measurePlain c cs
    · rw [List.cons_append, h, hfront, heq]
  by_cases hblank : isBlank c = true
  · have hplain : ∀ cs, measurePlain c cs = (.blank, 1 + Extent.run isBlank cs) :=
      fun cs => if_pos hblank
    by_cases hall : Extent.run isBlank cs = cs.length
    · refine .blank ?_ ?_
      · rw [hfront, hplain, hall, Nat.add_comm]
        rfl
      · rw [List.cons_append, h, hplain, run_isBlank_append, if_pos hall, List.length_cons]
        exact Prod.ext rfl (by dsimp only; omega)
    · apply hinside
      rw [hplain, hplain, run_isBlank_append, if_neg hall]
  · exact hinside (measurePlain_append hborder hblank)

theorem atBorder_comment {rest : List Char} (h : AtLineEnd ('/' :: '*' :: rest) v) :
    AtBorder ('/' :: '*' :: rest) v := by
  have hrest : AtLineEnd rest v := (h.tail (by decide)).tail (by decide)
  refine AtBorder.of_construct (Construct.ofComment rest) ['/', '*'] (.inr hrest) ?_ ?_
  · intro w hw
    have hcomment : Construct.ofComment (rest ++ w) = Construct.ofComment rest := by
      rcases hw with rfl | rfl
      · rw [List.append_nil]
      · exact Construct.stopsAtLineEnd_ofComment.append hrest
    show Comment.scanBlock (rest ++ w) = _
    rw [Comment.scanBlock_eq, hcomment]
    rfl
  · intro hend l hl htext
    unfold Construct.ofLexeme? Reading.openCommentKind
    rw [hl, htext]
    rw [Construct.end?_ofComment] at hend
    fun_cases Construct.ofComment rest with
    | case1 => rfl
    | case2 => cases hend
    | case3 => rfl
    | case4 rest h h' h'' =>
      have hstar : "/**".toList.isPrefixOf (['/', '*'] ++ rest) = false := by
        show ['*'].isPrefixOf rest = false
        cases rest with
        | nil => rfl
        | cons c cs =>
          have hc : '*' ≠ c := fun hc => h'' cs (by rw [hc])
          rw [List.isPrefixOf, beq_eq_false_iff_ne.mpr hc, Bool.false_and]
      dsimp only [Construct.openShape]
      rw [hstar]
      rfl

theorem atBorder_textBlock {rest : List Char} (h : LineBorder rest v) :
    AtBorder ('"' :: '"' :: '"' :: rest) v := by
  refine AtBorder.of_construct .textBlock ['"', '"', '"'] h ?_ ?_
  · exact fun w _ => Literal.scanDouble_eq (rest ++ w)
  · intro _ l hl _
    unfold Construct.ofLexeme?
    rw [hl]
    rfl

theorem atBorder_lineComment {rest : List Char} (h : AtLineEnd rest v) :
    AtBorder ('/' :: '/' :: rest) v := by
  have hrun : StopsAtLineEnd (Extent.run (!isLineEnd ·)) :=
    Extent.stopsAtLineEnd_run (by decide)
  refine .inside rfl ?_
  show Comment.scanLine (rest ++ v) = Comment.scanLine rest
  unfold Comment.scanLine
  rw [hrun.append h]

theorem scanDouble_of_ne {cs : List Char} (h : ∀ rest, cs ≠ '"' :: '"' :: rest) :
    Literal.scanDouble cs =
      (if (Literal.content '"' cs).1 then .string else .unterminatedString,
        1 + (Literal.content '"' cs).2) :=
  Literal.scanDouble.eq_2 cs h

theorem atBorder_string {rest : List Char} (hborder : AtLineEnd rest v)
    (h : ∀ cs, rest ≠ '"' :: '"' :: cs) : AtBorder ('"' :: rest) v := by
  have happend : ∀ cs, rest ++ v ≠ '"' :: '"' :: cs := by
    intro cs heq
    obtain ⟨rest, rfl⟩ := hborder.exists_cons heq (by decide)
    obtain ⟨-, heq'⟩ := List.cons.inj heq
    obtain ⟨rest, rfl⟩ := (hborder.tail (by decide)).exists_cons heq' (by decide)
    exact h rest rfl
  refine .inside (Construct.ofLexeme?_eq_none_iff.mpr ?_) ?_
  · show (Literal.scanDouble rest).1.isOpen = false
    rw [scanDouble_of_ne h]
    cases (Literal.content '"' rest).1 <;> rfl
  · show Literal.scanDouble (rest ++ v) = Literal.scanDouble rest
    rw [scanDouble_of_ne h, scanDouble_of_ne happend,
      (Literal.stopsAtLineEnd_content (by decide)).append hborder]

theorem atBorder_character {rest : List Char} (h : AtLineEnd rest v) :
    AtBorder ('\'' :: rest) v := by
  have hcontent : StopsAtLineEnd (Literal.content '\'') :=
    Literal.stopsAtLineEnd_content (by decide)
  refine .inside (Construct.ofLexeme?_eq_none_iff.mpr ?_) ?_
  · show (Literal.scanSingle rest).1.isOpen = false
    unfold Literal.scanSingle
    dsimp only
    cases (Literal.content '\'' rest).1 <;> rfl
  · show Literal.scanSingle (rest ++ v) = Literal.scanSingle rest
    unfold Literal.scanSingle
    rw [hcontent.append h]

/-- How the first lexeme of a text lies to the end of the line. -/
theorem atBorder (h : AtLineEnd u v) (hne : u ≠ []) : AtBorder u v := by
  obtain ⟨c, cs, rfl⟩ := List.exists_cons_of_ne_nil hne
  by_cases hdouble : c = '"'
  · subst hdouble
    have hrest := h.tail (by decide)
    by_cases hblock : ∃ rest, cs = '"' :: '"' :: rest
    · obtain ⟨rest, rfl⟩ := hblock
      exact atBorder_textBlock (.inr ((hrest.tail (by decide)).tail (by decide)))
    · exact atBorder_string hrest fun rest heq => hblock ⟨rest, heq⟩
  by_cases hsingle : c = '\''
  · subst hsingle
    exact atBorder_character (h.tail (by decide))
  by_cases hslash : c = '/' ∧ ∃ d rest, cs = d :: rest ∧ (d = '/' ∨ d = '*')
  · obtain ⟨rfl, d, rest, rfl, rfl | rfl⟩ := hslash
    · exact atBorder_lineComment ((h.tail (by decide)).tail (by decide))
    · exact atBorder_comment h
  have hplain : ∀ w, w = [] ∨ w = v → c = '/' →
      (cs ++ w).head? ≠ some '/' ∧ (cs ++ w).head? ≠ some '*' := by
    rintro w hw rfl
    have hcs : ∀ d, isLineEnd d = false → (cs ++ w).head? = some d → ∃ rest, cs = d :: rest := by
      intro d hd hhead
      obtain ⟨ds, hds⟩ := List.head?_eq_some_iff.mp hhead
      rcases hw with rfl | rfl
      · exact ⟨ds, (List.append_nil cs).symm.trans hds⟩
      · exact (h.tail (by decide)).exists_cons hds hd
    constructor
    · intro hhead
      obtain ⟨rest, rfl⟩ := hcs '/' (by decide) hhead
      exact hslash ⟨rfl, _, rest, rfl, .inl rfl⟩
    · intro hhead
      obtain ⟨rest, rfl⟩ := hcs '*' (by decide) hhead
      exact hslash ⟨rfl, _, rest, rfl, .inr rfl⟩
  have hfront := hplain [] (.inl rfl)
  rw [List.append_nil] at hfront
  exact atBorder_of_measurePlain h (measure_eq_measurePlain hdouble hsingle hfront)
    (measure_eq_measurePlain hdouble hsingle (hplain v (.inr rfl)))

theorem isOpen_shapeIn {construct : Construct} {cs : List Char}
    (h : (construct.shapeIn cs).isOpen = true) :
    Line.carriedLength (some construct) cs = cs.length := by
  cases hend : construct.end? cs with
  | none => exact (Construct.shapeIn_of_end?_eq_none hend).2
  | some n =>
    rw [Construct.shapeIn, if_neg (by rw [hend]; simp), construct.isOpen_closedShape] at h
    cases h

theorem measure_of_isOpen {cs : List Char} (h : (measure cs).1.isOpen = true) :
    (measure cs).2 = cs.length := by
  rw [measure.eq_def] at h ⊢
  split at h
  · cases h
  · cases h
  · next cs =>
    rw [Comment.scanBlock_eq] at h ⊢
    dsimp only at h ⊢
    rw [isOpen_shapeIn h, List.length_cons, List.length_cons]
    omega
  · next cs =>
    by_cases hblock : ∃ rest, cs = '"' :: '"' :: rest
    · obtain ⟨rest, rfl⟩ := hblock
      rw [Literal.scanDouble_eq] at h ⊢
      dsimp only at h ⊢
      rw [isOpen_shapeIn h, List.length_cons, List.length_cons, List.length_cons]
      omega
    · rw [scanDouble_of_ne fun rest hrest => hblock ⟨rest, hrest⟩] at h
      dsimp only at h
      split at h <;> cases h
  · next cs =>
    unfold Literal.scanSingle at h
    dsimp only at h
    split at h <;> cases h
  · next c cs _ _ _ _ =>
    have hplain : (measurePlain c cs).1.isOpen = true := h
    rw [isOpen_measurePlain] at hplain
    cases hplain

theorem measure_cases (c : Char) (cs : List Char) :
    (measure (c :: cs)).1 ∈ [Shape.lineComment, .string, .unterminatedString, .character,
        .unterminatedCharacter] ∨
      (∃ construct ds, (measure (c :: cs)).1 = Construct.shapeIn construct ds) ∨
      measure (c :: cs) = measurePlain c cs := by
  rw [measure.eq_def]
  split
  · next h => cases h
  · exact .inl (by simp [Comment.scanLine])
  · next cs _ => exact .inr (.inl ⟨_, cs, by rw [Comment.scanBlock_eq]⟩)
  · next cs _ =>
    by_cases hblock : ∃ rest, cs = '"' :: '"' :: rest
    · obtain ⟨rest, rfl⟩ := hblock
      exact .inr (.inl ⟨.textBlock, rest, by rw [Literal.scanDouble_eq]⟩)
    · left
      rw [scanDouble_of_ne fun rest hrest => hblock ⟨rest, hrest⟩]
      cases (Literal.content '"' cs).1 <;> simp
  · next cs _ =>
    left
    unfold Literal.scanSingle
    dsimp only
    cases (Literal.content '\'' cs).1 <;> simp
  · next heq =>
    obtain ⟨rfl, rfl⟩ := List.cons.inj heq
    exact .inr (.inr rfl)

theorem shapeIn_ne (construct : Construct) (cs : List Char) :
    construct.shapeIn cs ≠ .stray ∧ construct.shapeIn cs ≠ .endOfInput ∧
      ∀ s, construct.shapeIn cs ≠ .symbol s := by
  unfold Construct.shapeIn
  cases construct <;> split <;> simp [Construct.openShape, Construct.closedShape]

theorem measure_ne_endOfInput {cs : List Char} (hne : cs ≠ []) :
    (measure cs).1 ≠ .endOfInput := by
  obtain ⟨c, cs, rfl⟩ := List.exists_cons_of_ne_nil hne
  rcases measure_cases c cs with h | ⟨construct, ds, h⟩ | h
  · intro hend
    rw [hend] at h
    simp at h
  · rw [h]
    exact (shapeIn_ne construct ds).2.1
  · rw [h]
    unfold measurePlain
    split_ifs
    · simp
    · simp
    · rcases Number.scan_shape (c :: cs) with ⟨radix, h⟩ | h <;> rw [h] <;> simp
    · simp [Number.scanFraction]
    · split <;> simp

theorem startsText_of_measure {cs : List Char} {s : Symbol} (h : (measure cs).1 = .symbol s) :
    s.startsText cs = true ∧ (measure cs).2 = s.spelling.length := by
  cases cs with
  | nil => cases h
  | cons c cs =>
    rcases measure_cases c cs with h' | ⟨construct, ds, h'⟩ | h'
    · rw [h] at h'
      simp at h'
    · exact absurd (h'.symm.trans h) ((shapeIn_ne construct ds).2.2 s)
    · rw [h'] at h ⊢
      unfold measurePlain at h ⊢
      split_ifs at h ⊢ with hblank hword hdigit hpoint
      · rcases Number.scan_shape (c :: cs) with ⟨radix, hscan⟩ | hscan
        · rw [hscan] at h
          cases h
        · rw [hscan] at h
          cases h
      · cases h
      · split at h
        · next s' hs' =>
          obtain rfl : s' = s := Shape.symbol.inj h
          exact ⟨Symbol.startsText_of_longest? hs', rfl⟩
        · cases h

end Lexeme

/-! ## Lexemes of a text -/

/-- A lexeme as it stands in a text: it is no end of input, and a run of closing angle brackets
has a byte for each of them. -/
structure Lexeme.InText (l : Lexeme) : Prop where
  not_end : l.shape ≠ .endOfInput
  angles : l.shape.closingAngles ≠ 0 → l.length = l.shape.closingAngles

namespace Lexeme

variable {cs : List Char} {l : Lexeme}

theorem shape_ne_endOfInput_of_mem_ofText (h : l ∈ ofText cs) : l.shape ≠ .endOfInput := by
  obtain ⟨c, ds, rfl⟩ := exists_eq_first h
  exact measure_ne_endOfInput (List.cons_ne_nil c ds)

theorem text_of_symbol (h : l ∈ ofText cs) {s : Symbol} (hl : l.shape = .symbol s) :
    l.text = s.spelling.toList := by
  obtain ⟨c, ds, rfl⟩ := exists_eq_first h
  obtain ⟨hstarts, hmeasure⟩ := startsText_of_measure hl
  obtain ⟨rest, hrest⟩ := List.isPrefixOf_iff_prefix.mp hstarts
  rw [text_first, hmeasure, ← hrest, ← String.length_toList, List.take_left]

theorem inText_of_mem_ofText (h : l ∈ ofText cs) : l.InText := by
  refine ⟨shape_ne_endOfInput_of_mem_ofText h, fun hangles => ?_⟩
  cases hl : l.shape with
  | symbol s =>
    have key : ∀ s ∈ Symbol.all, s.closingAngles ≠ 0 →
        Text.byteSize s.spelling.toList = s.closingAngles := by decide
    rw [hl] at hangles
    rw [length_eq_byteSize h, text_of_symbol h hl]
    exact key s s.mem_all hangles
  | _ => rw [hl] at hangles; exact absurd rfl hangles

end Lexeme

end JavaHighlight
