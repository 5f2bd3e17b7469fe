import JavaHighlight.Proofs.Lines.Resumed

/-!
# What is open at the start of a line

Going through the lines of a text leaves open what reading all of them at once does
(`Line.carryBehind_append`), and that is the construct among the lexemes of the whole text that
starts in front of the line and has not ended there (`Line.carryBehind_eq_some_iff`).
-/

namespace JavaHighlight

open Text (AtLineEnd EndsLine LineBorder)

/-! ## Lexemes that are constructs -/

namespace Construct

/-- The construct of a lexeme with this shape, if the lexeme has its end. -/
def ofClosed? : Shape → Option Construct
  | .blockComment => some .blockComment
  | .javadocComment => some .javadoc
  | .nativeBlock => some .nativeBlock
  | .textBlock => some .textBlock
  | _ => none

theorem ofLexeme?_append {x y : List Char} (h : AtLineEnd x y) (shape : Shape) :
    ofLexeme? ⟨shape, x ++ y⟩ = ofLexeme? ⟨shape, x⟩ := by
  have hcomment : "/**".toList.isPrefixOf (x ++ y) = "/**".toList.isPrefixOf x :=
    (Text.stopsAtLineEnd_isPrefixOf (by decide)).append h
  unfold ofLexeme? Reading.openCommentKind
  dsimp only
  rw [hcomment]

end Construct

/-- The construct that a lexeme is, with or without its end. -/
def Lexeme.construct? (l : Lexeme) : Option Construct :=
  (Construct.ofLexeme? l).or (Construct.ofClosed? l.shape)

theorem Lexeme.construct?_append {construct : Construct} {x : List Char} (hx : EndsLine x)
    (hne : x ≠ []) (h : Construct.ofLexeme? ⟨construct.openShape, x⟩ = some construct)
    (v y : List Char) : construct? ⟨construct.shapeIn v, x ++ y⟩ = some construct := by
  unfold construct? Construct.shapeIn
  split_ifs
  · rw [Construct.ofLexeme?_append ((hx.lineBorder y).atLineEnd hne), h, Option.some_or]
  · rw [Construct.ofLexeme?_eq_none_iff.mpr construct.isOpen_closedShape, Option.none_or]
    cases construct <;> rfl

namespace Line

variable {u v : List Char}

/-- Only the last lexeme of a text can lack its end. -/
theorem isOpen_of_ofText_eq {cs : List Char} {before after : List Lexeme} {l : Lexeme}
    (h : Lexeme.ofText cs = before ++ l :: after) (hafter : after ≠ []) :
    l.shape.isOpen = false := by
  obtain ⟨rest, hmeasure, rfl⟩ := Lexeme.measure_of_ofText_eq h
  rw [Bool.eq_false_iff]
  intro hopen
  have hall := Lexeme.measure_of_isOpen (by rwa [hmeasure])
  rw [hmeasure, List.length_append] at hall
  obtain rfl : rest = [] := List.length_eq_zero_iff.mp (by omega)
  exact hafter Lexeme.ofText_nil

theorem carryBehind_nil (carry : Option Construct) : carryBehind carry [] = carry := by
  cases carry with
  | none => rfl
  | some construct => cases construct <;> rfl

theorem getLast?_append_cons (before : List Lexeme) (l : Lexeme) (after : List Lexeme) :
    (before ++ l :: after).getLast? = (l :: after).getLast? := by
  rw [List.getLast?_append, List.getLast?_cons, Option.some_or]

theorem getLast?_cons_bind {l : Lexeme} (hclosed : l.shape.isOpen = false) (ls : List Lexeme) :
    (l :: ls).getLast?.bind Construct.ofLexeme? = ls.getLast?.bind Construct.ofLexeme? := by
  cases ls with
  | nil => exact Construct.ofLexeme?_eq_none_iff.mpr hclosed
  | cons l' ls => rw [List.getLast?_cons_cons]

/-- What is open at a border is what the last lexeme in front of it leaves open. -/
theorem ofLexeme?_of_carryBehind {before : List Lexeme} {l : Lexeme} {carry : Option Construct}
    (hcarry : carryBehind none u = carry) (hu : resume none u = before ++ [l]) :
    Construct.ofLexeme? l = carry := by
  rw [carryBehind_none_eq, ← resume_none, hu, List.getLast?_concat] at hcarry
  exact hcarry

theorem carryBehind_none_append (hborder : LineBorder u v) :
    carryBehind none (u ++ v) = carryBehind (carryBehind none u) v := by
  by_cases hv : v = []
  · subst hv
    rw [List.append_nil, carryBehind_nil]
  cases junction_none hborder with
  | apart hcarry h =>
    obtain ⟨l, ls, hls⟩ : ∃ l ls, Lexeme.ofText v = l :: ls := by
      obtain ⟨c, cs, rfl⟩ := List.exists_cons_of_ne_nil hv
      exact ⟨_, _, Lexeme.ofText_eq_cons c cs⟩
    rw [hcarry, carryBehind_none_eq, carryBehind_none_eq, ← resume_none, h, resume_none v, hls,
      getLast?_append_cons]
  | blank before x y after hcarry hu hv h =>
    rw [hcarry, carryBehind_none_eq, carryBehind_none_eq, ← resume_none, h, ← resume_none, hv,
      getLast?_append_cons, getLast?_cons_bind rfl, getLast?_cons_bind rfl]
  | construct construct before x hcarry hx hresume h =>
    rw [hcarry, carryBehind_none_eq, ← resume_none, h, getLast?_append_cons]
    have hopen := ofLexeme?_of_carryBehind hcarry hresume
    have hne : x ≠ [] := (length_of_mem_resume (hresume ▸ List.mem_concat_self)).2
    by_cases hend : construct.end? v = none
    · have hstays := staysOpen_some_iff.mpr hend
      rw [rest_of_staysOpen hstays, carriedPart_of_staysOpen hstays, carryBehind, if_pos hstays,
        Construct.shapeIn, if_pos hend]
      exact (Construct.ofLexeme?_append ((hborder.of_suffix hx).atLineEnd hne) _).trans hopen
    · rw [carryBehind, if_neg (staysOpen_some_iff.not.mpr hend), Construct.shapeIn, if_neg hend]
      exact getLast?_cons_bind construct.isOpen_closedShape _

/-- **Going through consecutive lines** leaves open what reading them at once does. -/
theorem carryBehind_append (carry : Option Construct) (hborder : LineBorder u v) :
    carryBehind carry (u ++ v) = carryBehind (carryBehind carry u) v := by
  cases hstays : staysOpen carry u with
  | false =>
    obtain ⟨hstays', -, hrest⟩ := append_of_not_staysOpen hborder hstays
    have hcarry : ∀ cs, staysOpen carry cs = false →
        carryBehind carry cs = carryBehind none (rest carry cs) :=
      fun cs hcs => if_neg (Bool.eq_false_iff.mp hcs)
    rw [hcarry _ hstays', hcarry _ hstays, hrest]
    exact carryBehind_none_append (hborder.of_suffix (List.drop_suffix _ u))
  | true =>
    obtain ⟨hstays', -, hrest⟩ := append_of_staysOpen hborder hstays
    have hcarry : carryBehind carry u = carry := if_pos hstays
    rw [hcarry, carryBehind, carryBehind, hstays', hrest]

/-! ## The construct at a border -/

theorem totalLength_resume (carry : Option Construct) (cs : List Char) :
    Lexeme.totalLength (resume carry cs) = Text.byteSize cs := by
  rw [Lexeme.totalLength_eq_byteSize fun l hl => (length_of_mem_resume hl).1, flatMap_text_resume]

/-- Two ways to single out a lexeme of a list: the second one stands in front of the first, is
the same, or stands behind it. -/
theorem append_cons_cases {a b a' b' : List Lexeme} {l l' : Lexeme}
    (h : a ++ l :: b = a' ++ l' :: b') :
    (∃ t, a = a' ++ l' :: t) ∨ (a = a' ∧ l = l' ∧ b = b') ∨ ∃ t, a' = a ++ l :: t := by
  rcases List.append_eq_append_iff.mp h with ⟨t, rfl, ht⟩ | ⟨t, rfl, ht⟩
  · cases t with
    | nil =>
      obtain ⟨rfl, rfl⟩ := List.cons.inj ht
      exact .inr (.inl ⟨(List.append_nil a).symm, rfl, rfl⟩)
    | cons m t =>
      obtain ⟨rfl, -⟩ := List.cons.inj ht
      exact .inr (.inr ⟨t, rfl⟩)
  · cases t with
    | nil =>
      obtain ⟨rfl, rfl⟩ := List.cons.inj ht
      exact .inr (.inl ⟨List.append_nil a', rfl, rfl⟩)
    | cons m t =>
      obtain ⟨rfl, -⟩ := List.cons.inj ht
      exact .inl ⟨t, rfl⟩

theorem byteSize_of_cut {carry : Option Construct} {before after : List Lexeme}
    {shape shape' : Shape} {x y : List Char} (hu : resume carry u = before ++ [⟨shape, x⟩])
    (h : resume carry (u ++ v) = before ++ ⟨shape', x ++ y⟩ :: after) :
    x ≠ [] ∧ Text.byteSize u = Lexeme.totalLength before + Text.byteSize x ∧
      (⟨shape', x ++ y⟩ : Lexeme).length = Text.byteSize x + Text.byteSize y := by
  obtain ⟨hlength, hne⟩ := length_of_mem_resume (hu ▸ List.mem_concat_self)
  have hlength' := (length_of_mem_resume (h ▸ List.mem_append_right _ List.mem_cons_self)).1
  have hsum := totalLength_resume carry u
  rw [hu, Lexeme.totalLength_append, Lexeme.totalLength_singleton, hlength] at hsum
  exact ⟨hne, hsum.symm, hlength'.trans (Text.byteSize_append _ _)⟩

end Line

namespace Occurrence

theorem mem_ofLexemes_iff {o : Occurrence} {start : Nat} {ls : List Lexeme} :
    o ∈ ofLexemes start ls ↔ ∃ before after, ls = before ++ o.lexeme :: after ∧
      o.start = start + Lexeme.totalLength before ∧
      o.ahead = after.filter (·.isSignificant) := by
  induction ls generalizing start with
  | nil => simp [ofLexemes]
  | cons l ls ih =>
    rw [ofLexemes, List.mem_cons, significant_ofLexemes, ih]
    constructor
    · rintro (rfl | ⟨before, after, rfl, hstart, hahead⟩)
      · exact ⟨[], ls, rfl, rfl, rfl⟩
      · refine ⟨l :: before, after, rfl, ?_, hahead⟩
        rw [hstart, Lexeme.totalLength_cons, Nat.add_assoc]
    · rintro ⟨before, after, h, hstart, hahead⟩
      cases before with
      | nil =>
        obtain ⟨rfl, rfl⟩ := List.cons.inj h
        obtain ⟨lexeme, start', ahead⟩ := o
        dsimp only at hstart hahead
        subst hstart hahead
        exact .inl rfl
      | cons first before =>
        obtain ⟨rfl, rfl⟩ := List.cons.inj h
        refine .inr ⟨before, after, rfl, ?_, hahead⟩
        rw [hstart, Lexeme.totalLength_cons, Nat.add_assoc]

def stop (o : Occurrence) : Nat :=
  o.start + o.lexeme.length

end Occurrence

namespace Line

variable {u v : List Char} {before after : List Lexeme} {l : Lexeme}

/-- A lexeme that ends at the latest where `u` does, in front of another one, does not reach over
the end of `u`. -/
theorem not_reaching (h : Lexeme.ofText (u ++ v) = before ++ l :: after) (hafter : after ≠ [])
    (hle : Lexeme.totalLength before + l.length ≤ Text.byteSize u) :
    ¬(Text.byteSize u < Lexeme.totalLength before + l.length ∨ l.shape.isOpen = true) := by
  rintro (hlt | hopen)
  · omega
  · rw [isOpen_of_ofText_eq h hafter] at hopen
    cases hopen

theorem not_reaching_of_apart (hcarry : carryBehind none u = none)
    (hwhole : Lexeme.ofText (u ++ v) = Lexeme.ofText u ++ Lexeme.ofText v)
    (h : Lexeme.ofText (u ++ v) = before ++ l :: after)
    (hstart : Lexeme.totalLength before < Text.byteSize u) :
    ¬(Text.byteSize u < Lexeme.totalLength before + l.length ∨ l.shape.isOpen = true) := by
  have hsum := totalLength_resume none u
  rw [resume_none] at hsum
  rcases List.append_eq_append_iff.mp (hwhole.symm.trans h) with ⟨t, rfl, -⟩ | ⟨t, hu, ht⟩
  · rw [Lexeme.totalLength_append, hsum] at hstart
    omega
  cases t with
  | nil =>
    rw [List.append_nil] at hu
    rw [hu] at hsum
    omega
  | cons m t =>
    obtain ⟨rfl, rfl⟩ := List.cons.inj ht
    have hle : Lexeme.totalLength before + l.length ≤ Text.byteSize u := by
      rw [← hsum, hu, Lexeme.totalLength_append, Lexeme.totalLength_cons]
      omega
    by_cases hafter : t ++ Lexeme.ofText v = []
    · have hresume : resume none u = before ++ [l] := by
        rw [resume_none, hu, (List.append_eq_nil_iff.mp hafter).1]
      have hopen := Construct.ofLexeme?_eq_none_iff.mp (ofLexeme?_of_carryBehind hcarry hresume)
      rw [hopen]
      simp only [Bool.false_eq_true, or_false]
      omega
    · exact not_reaching h hafter hle

/-- If one lexeme is cut by the end of `u`, then it is the only one of those that start in `u`
that reaches over the end of `u`. -/
theorem eq_of_reaching {before' after' : List Lexeme} {l' : Lexeme}
    (hwhole : Lexeme.ofText (u ++ v) = before' ++ l' :: after')
    (hle : Lexeme.totalLength before' ≤ Text.byteSize u)
    (hge : Text.byteSize u ≤ Lexeme.totalLength before' + l'.length)
    (h : Lexeme.ofText (u ++ v) = before ++ l :: after)
    (hstart : Lexeme.totalLength before < Text.byteSize u)
    (hreach : Text.byteSize u < Lexeme.totalLength before + l.length ∨
      l.shape.isOpen = true) : l' = l := by
  rcases append_cons_cases (hwhole.symm.trans h) with ⟨t, rfl⟩ | ⟨-, heq, -⟩ | ⟨t, rfl⟩
  · have hsplit : Lexeme.ofText (u ++ v) = before ++ l :: (t ++ l' :: after') := by
      rw [hwhole, List.append_assoc, List.cons_append]
    refine absurd hreach (not_reaching hsplit (by simp) ?_)
    rw [Lexeme.totalLength_append, Lexeme.totalLength_cons] at hle
    omega
  · exact heq
  · rw [Lexeme.totalLength_append, Lexeme.totalLength_cons] at hstart
    omega

/-- **What is open at the start of a line.** It is the construct that starts in front of the
line and reaches over its start, or lacks its end. -/
theorem carryBehind_eq_some_iff (hu : EndsLine u) (v : List Char) (construct : Construct) :
    carryBehind none u = some construct ↔
      ∃ o ∈ Occurrence.ofLexemes 0 (Lexeme.ofText (u ++ v)),
        o.lexeme.construct? = some construct ∧ o.start < Text.byteSize u ∧
          (Text.byteSize u < o.stop ∨ o.lexeme.shape.isOpen = true) := by
  have hjunction := junction_none (hu.lineBorder v)
  constructor
  · intro h
    cases hjunction with
    | apart hcarry _ => rw [h] at hcarry; cases hcarry
    | blank before x y after hcarry _ _ _ => rw [h] at hcarry; cases hcarry
    | construct construct' before x hcarry hx hresume hwhole =>
      obtain rfl : construct = construct' := Option.some.inj (h.symm.trans hcarry)
      obtain ⟨hne, hsize, hlength⟩ := byteSize_of_cut hresume hwhole
      have hopen := ofLexeme?_of_carryBehind hcarry hresume
      have hxpos := Text.byteSize_pos hne
      refine ⟨⟨_, Lexeme.totalLength before, _⟩, Occurrence.mem_ofLexemes_iff.mpr
        ⟨before, _, hwhole, (Nat.zero_add _).symm, rfl⟩,
        Lexeme.construct?_append (hu.of_suffix hx) hne hopen v _, ?_, ?_⟩
      · dsimp only
        omega
      · by_cases hv : v = []
        · subst hv
          right
          cases construct <;> rfl
        · have hpart := Text.byteSize_pos (carriedPart_ne_nil hv construct)
          left
          unfold Occurrence.stop
          dsimp only
          omega
  · rintro ⟨o, ho, hconstruct, hstart, hreach⟩
    obtain ⟨before, after, hls, hstart', -⟩ := Occurrence.mem_ofLexemes_iff.mp ho
    rw [Nat.zero_add] at hstart'
    unfold Occurrence.stop at hreach
    rw [hstart'] at hstart hreach
    cases hjunction with
    | apart hcarry h => exact absurd hreach (not_reaching_of_apart hcarry h hls hstart)
    | blank before' x y after' hcarry hresume hv hwhole =>
      obtain ⟨-, hsize, hlength⟩ := byteSize_of_cut hresume hwhole
      have heq := eq_of_reaching hwhole (by omega) (by omega) hls hstart hreach
      rw [← heq] at hconstruct
      cases hconstruct
    | construct construct' before' x hcarry hx hresume hwhole =>
      obtain ⟨hne, hsize, hlength⟩ := byteSize_of_cut hresume hwhole
      have heq := eq_of_reaching hwhole (by omega) (by omega) hls hstart hreach
      rw [← heq, Lexeme.construct?_append (hu.of_suffix hx) hne
        (ofLexeme?_of_carryBehind hcarry hresume)] at hconstruct
      rw [hcarry, hconstruct]

end Line

end JavaHighlight
