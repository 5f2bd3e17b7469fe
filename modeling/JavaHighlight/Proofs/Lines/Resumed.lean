import JavaHighlight.Proofs.Lines.Border
import Mathlib.Tactic.ByContra

/-!
# Texts in front of which something is open

`Line.resume` lists the lexemes of a text in front of which a construct may be open. Where a
text is cut at the end of a line, at most one of its lexemes is cut in two, and the construct
that is open there takes up the second part (`Line.junction`).
-/

namespace JavaHighlight

open Text (LineBorder)

namespace Construct

theorem textBlockEnd?_le {cs : List Char} {n : Nat} (h : textBlockEnd? cs = some n) :
    n ≤ cs.length := by
  have hle := Literal.blockContent_le cs
  rw [Literal.blockContent_eq, h] at hle
  exact hle

theorem end?_le {construct : Construct} {cs : List Char} {n : Nat}
    (h : construct.end? cs = some n) : n ≤ cs.length := by
  cases construct with
  | textBlock => exact textBlockEnd?_le h
  | _ => exact Comment.closing?_le h

theorem end?_ne_zero {construct : Construct} {cs : List Char} :
    construct.end? cs ≠ some 0 := by
  have hblock : textBlockEnd? cs ≠ some 0 := by fun_cases textBlockEnd? cs <;> simp
  have hcomment : Comment.closing? cs ≠ some 0 := by fun_cases Comment.closing? cs <;> simp
  cases construct with
  | textBlock => exact hblock
  | _ => exact hcomment

end Construct

namespace Lexeme

theorem ofText_of_measure {cs : List Char} (hne : cs ≠ []) {shape : Shape} {n : Nat}
    (h : measure cs = (shape, n)) :
    ofText cs = ⟨shape, cs.take n⟩ :: ofText (cs.drop n) := by
  obtain ⟨c, cs, rfl⟩ := List.exists_cons_of_ne_nil hne
  rw [ofText_eq_cons, first, h]

theorem measure_of_isBlank {c : Char} (hc : isBlank c = true) (cs : List Char) :
    measure (c :: cs) = (.blank, Extent.run isBlank (c :: cs)) := by
  have hne : ∀ d, isBlank d = false → c ≠ d := by
    rintro d hd rfl
    rw [hc] at hd
    cases hd
  rw [measure_eq_measurePlain (hne _ rfl) (hne _ rfl) fun h => absurd h (hne _ rfl),
    Extent.run_cons_of_pos hc]
  exact if_pos hc

end Lexeme

namespace Line

/-! ## Resuming -/

/-- The lexeme that goes on with what is open in front of a text, unless the text is empty. -/
def carriedLexeme (carry : Option Construct) (cs : List Char) : List Lexeme :=
  match carry with
  | none => []
  | some construct => if cs = [] then [] else [⟨construct.shapeIn cs, carriedPart carry cs⟩]

/-- The lexemes of a text in front of which something is open. -/
def resume (carry : Option Construct) (cs : List Char) : List Lexeme :=
  carriedLexeme carry cs ++ Lexeme.ofText (rest carry cs)

@[simp] theorem resume_none (cs : List Char) : resume none cs = Lexeme.ofText cs := rfl

@[simp] theorem resume_nil (carry : Option Construct) : resume carry [] = [] := by
  cases carry with
  | none => rfl
  | some construct => rw [resume, carriedLexeme, if_pos rfl, rest, List.drop_nil]; rfl

theorem resume_some {cs : List Char} (hne : cs ≠ []) (construct : Construct) :
    resume (some construct) cs =
      ⟨construct.shapeIn cs, carriedPart (some construct) cs⟩ ::
        Lexeme.ofText (rest (some construct) cs) := by
  rw [resume, carriedLexeme, if_neg hne]
  rfl

theorem carriedPart_ne_nil {cs : List Char} (hne : cs ≠ []) (construct : Construct) :
    carriedPart (some construct) cs ≠ [] := by
  have hlength : carriedLength (some construct) cs ≠ 0 := by
    unfold carriedLength
    dsimp only
    cases hend : construct.end? cs with
    | none => exact fun h => hne (List.length_eq_zero_iff.mp h)
    | some n =>
      rintro rfl
      exact Construct.end?_ne_zero hend
  unfold carriedPart
  rw [Ne, List.take_eq_nil_iff, not_or]
  exact ⟨hlength, hne⟩

theorem flatMap_text_resume (carry : Option Construct) (cs : List Char) :
    (resume carry cs).flatMap Lexeme.text = cs := by
  by_cases hne : cs = []
  · subst hne
    rw [resume_nil]
    rfl
  cases carry with
  | none => exact Lexeme.flatMap_text_ofText cs
  | some construct =>
    rw [resume_some hne, List.flatMap_cons, Lexeme.flatMap_text_ofText]
    exact carriedPart_append_rest _ _

theorem length_of_mem_resume {carry : Option Construct} {cs : List Char} {l : Lexeme}
    (h : l ∈ resume carry cs) : l.length = Text.byteSize l.text ∧ l.text ≠ [] := by
  by_cases hne : cs = []
  · subst hne
    rw [resume_nil] at h
    cases h
  cases carry with
  | none => exact ⟨Lexeme.length_eq_byteSize h, Lexeme.text_ne_nil_of_mem_ofText h⟩
  | some construct =>
    rw [resume_some hne, List.mem_cons] at h
    rcases h with rfl | h
    · exact ⟨if_neg ((Lexeme.shapeIn_ne _ _).1), carriedPart_ne_nil hne construct⟩
    · exact ⟨Lexeme.length_eq_byteSize h, Lexeme.text_ne_nil_of_mem_ofText h⟩

/-! ## Cutting a text at the end of a line -/

section

variable {carry : Option Construct} {u v : List Char}

/-- What is open in front of `u` ends in `u`, whatever is behind. -/
theorem append_of_not_staysOpen (h : LineBorder u v) (hstays : staysOpen carry u = false) :
    staysOpen carry (u ++ v) = false ∧ carriedPart carry (u ++ v) = carriedPart carry u ∧
      rest carry (u ++ v) = rest carry u ++ v := by
  cases carry with
  | none => exact ⟨rfl, rfl, rfl⟩
  | some construct =>
    cases hend : construct.end? u with
    | none =>
      rw [staysOpen_some_iff.mpr hend] at hstays
      cases hstays
    | some n =>
      have hend' : construct.end? (u ++ v) = some n := by
        rw [construct.end?_append h, hend, Option.some_or]
      have hle : carriedLength (some construct) u ≤ u.length := by
        rw [carriedLength, hend]
        exact Construct.end?_le hend
      obtain ⟨-, hlength⟩ := construct.shapeIn_append_of_end? h hend
      refine ⟨?_, ?_, ?_⟩
      · rw [Bool.eq_false_iff, Ne, staysOpen_some_iff, hend']
        exact Option.some_ne_none n
      · rw [carriedPart, carriedPart, hlength, List.take_append_of_le_length hle]
      · rw [rest, rest, hlength, List.drop_append_of_le_length hle]

/-- What stays open in `u` goes on in `v` as if it were open in front of it. -/
theorem append_of_staysOpen (h : LineBorder u v) (hstays : staysOpen carry u = true) :
    staysOpen carry (u ++ v) = staysOpen carry v ∧
      carriedPart carry (u ++ v) = u ++ carriedPart carry v ∧
      rest carry (u ++ v) = rest carry v := by
  cases carry with
  | none => cases hstays
  | some construct =>
    have hend := staysOpen_some_iff.mp hstays
    obtain ⟨-, hlength⟩ := construct.shapeIn_append h hend
    refine ⟨?_, ?_, ?_⟩
    · rw [Bool.eq_iff_iff, staysOpen_some_iff, staysOpen_some_iff, construct.end?_append h, hend,
        Option.none_or, Option.map_eq_none_iff]
    · rw [carriedPart, carriedPart, hlength, List.take_length_add_append]
    · rw [rest, rest, hlength, List.drop_length_add_append]

end

/-- How the lexemes of `u ++ v` lie to the border between the two texts. -/
inductive Junction (carry : Option Construct) (u v : List Char) : Prop
  /-- A lexeme ends at the border. -/
  | apart (hcarry : carryBehind carry u = none)
      (h : resume carry (u ++ v) = resume carry u ++ resume none v)
  /-- A blank reaches over the border. -/
  | blank (before : List Lexeme) (x y : List Char) (after : List Lexeme)
      (hcarry : carryBehind carry u = none)
      (hu : resume carry u = before ++ [⟨.blank, x⟩])
      (hv : resume none v = ⟨.blank, y⟩ :: after)
      (h : resume carry (u ++ v) = before ++ ⟨.blank, x ++ y⟩ :: after)
  /-- A construct is open at the border. -/
  | construct (construct : Construct) (before : List Lexeme) (x : List Char)
      (hcarry : carryBehind carry u = some construct) (hx : x <:+ u)
      (hu : resume carry u = before ++ [⟨construct.openShape, x⟩])
      (h : resume carry (u ++ v) =
        before ++ ⟨construct.shapeIn v, x ++ carriedPart (some construct) v⟩ ::
          Lexeme.ofText (rest (some construct) v))

variable {carry : Option Construct} {u u' v : List Char}

theorem Junction.prepend (h : Junction none u' v) (hsuffix : u' <:+ u) (front : List Lexeme)
    (hcarry : carryBehind carry u = carryBehind none u')
    (hu : resume carry u = front ++ resume none u')
    (huv : resume carry (u ++ v) = front ++ resume none (u' ++ v)) : Junction carry u v := by
  cases h with
  | apart hcarry' h =>
    exact .apart (hcarry.trans hcarry') (by rw [huv, h, hu, List.append_assoc])
  | blank before x y after hcarry' hu' hv h =>
    exact .blank (front ++ before) x y after (hcarry.trans hcarry')
      (by rw [hu, hu', List.append_assoc]) hv (by rw [huv, h, List.append_assoc])
  | construct construct before x hcarry' hx hu' h =>
    exact .construct construct (front ++ before) x (hcarry.trans hcarry') (hx.trans hsuffix)
      (by rw [hu, hu', List.append_assoc]) (by rw [huv, h, List.append_assoc])

theorem carryBehind_none_eq (cs : List Char) :
    carryBehind none cs = (Lexeme.ofText cs).getLast?.bind Construct.ofLexeme? := rfl

theorem carryBehind_none_cons {l : Lexeme} {cs : List Char}
    (hu : Lexeme.ofText u = l :: Lexeme.ofText cs) (hclosed : Construct.ofLexeme? l = none) :
    carryBehind none u = carryBehind none cs := by
  rw [carryBehind_none_eq, carryBehind_none_eq, hu]
  cases hcs : Lexeme.ofText cs with
  | nil => exact hclosed
  | cons l' ls => rw [List.getLast?_cons_cons]

theorem junction_none (h : LineBorder u v) : Junction none u v := by
  induction u using Lexeme.text_induction with
  | nil => exact .apart rfl rfl
  | cons c cs ih =>
    generalize huc : c :: cs = u at h ih ⊢
    have hne : u ≠ [] := huc ▸ List.cons_ne_nil c cs
    have hnev : u ++ v ≠ [] := fun h => hne (List.append_eq_nil_iff.mp h).1
    cases Lexeme.atBorder (h.atLineEnd hne) hne with
    | inside hclosed hwhole =>
      have hmeasure : Lexeme.measure u = ((Lexeme.measure u).1, (Lexeme.measure u).2) := rfl
      have hle := Lexeme.measure_le u
      have hofText := Lexeme.ofText_of_measure hne hmeasure
      have hofTextv := Lexeme.ofText_of_measure hnev (hwhole.trans hmeasure)
      rw [List.take_append_of_le_length hle, List.drop_append_of_le_length hle] at hofTextv
      exact (ih (h.drop _)).prepend (List.drop_suffix _ u) [Lexeme.first u]
        (carryBehind_none_cons hofText hclosed) hofText hofTextv
    | blank hmeasure hwhole =>
      have hofText := Lexeme.ofText_of_measure hne hmeasure
      have hofTextv := Lexeme.ofText_of_measure hnev hwhole
      rw [List.take_length, List.drop_length] at hofText
      rw [List.take_length_add_append, List.drop_length_add_append] at hofTextv
      have hcarry : carryBehind none u = none := by
        rw [carryBehind_none_eq, hofText]
        rfl
      by_cases hv : Extent.run isBlank v = 0
      · rw [hv, List.take_zero, List.drop_zero, List.append_nil] at hofTextv
        exact .apart hcarry (by rw [resume_none, resume_none, hofText, hofTextv]; rfl)
      · obtain ⟨d, ds, rfl⟩ : ∃ d ds, v = d :: ds := by
          apply List.exists_cons_of_ne_nil
          rintro rfl
          exact hv rfl
        have hd : isBlank d = true := by
          by_contra hd
          rw [Extent.run, List.takeWhile_cons_of_neg hd] at hv
          exact hv rfl
        have hofTextd := Lexeme.ofText_of_measure (List.cons_ne_nil d ds)
          (Lexeme.measure_of_isBlank hd ds)
        exact .blank [] u _ _ hcarry hofText hofTextd hofTextv
    | construct construct hmeasure hopen hwhole =>
      have hofText := Lexeme.ofText_of_measure hne hmeasure
      have hofTextv := Lexeme.ofText_of_measure hnev hwhole
      rw [List.take_length, List.drop_length] at hofText
      rw [List.take_length_add_append, List.drop_length_add_append] at hofTextv
      have hcarry : carryBehind none u = some construct := by
        rw [carryBehind_none_eq, hofText]
        rw [Lexeme.first, hmeasure] at hopen
        dsimp only at hopen
        rw [List.take_length] at hopen
        exact hopen
      exact .construct construct [] u hcarry (List.suffix_refl u) hofText hofTextv

/-- **At most one lexeme is cut at the end of a line.** It is blank or a construct, and what is
open behind the line takes it up. -/
theorem junction (carry : Option Construct) (h : LineBorder u v) (hne : u ≠ []) :
    Junction carry u v := by
  cases carry with
  | none => exact junction_none h
  | some construct =>
    have hnev : u ++ v ≠ [] := fun h => hne (List.append_eq_nil_iff.mp h).1
    have hresume := resume_some hne construct
    have hresumev := resume_some hnev construct
    cases hstays : staysOpen (some construct) u with
    | false =>
      obtain ⟨-, hpart, hrest⟩ := append_of_not_staysOpen h hstays
      have hcarry : carryBehind (some construct) u =
          carryBehind none (rest (some construct) u) := by
        rw [carryBehind, if_neg (Bool.eq_false_iff.mp hstays)]
        rfl
      have hshape : construct.shapeIn (u ++ v) = construct.shapeIn u := by
        rw [← Bool.not_eq_true, staysOpen_some_iff] at hstays
        obtain ⟨n, hend⟩ := Option.ne_none_iff_exists'.mp hstays
        exact (construct.shapeIn_append_of_end? h hend).1
      refine (junction_none (h.drop _)).prepend (List.drop_suffix _ u) [⟨construct.shapeIn u, _⟩]
        hcarry hresume ?_
      rw [hresumev, hshape, hpart, hrest]
      rfl
    | true =>
      have hend := staysOpen_some_iff.mp hstays
      obtain ⟨-, hpart, hrest⟩ := append_of_staysOpen h hstays
      obtain ⟨hshape', -⟩ := Construct.shapeIn_of_end?_eq_none hend
      have hcarry : carryBehind (some construct) u = some construct := if_pos hstays
      refine .construct construct [] u hcarry (List.suffix_refl u) ?_ ?_
      · rw [hresume, hshape', rest_of_staysOpen hstays, carriedPart_of_staysOpen hstays]
        rfl
      · rw [hresumev, (construct.shapeIn_append h hend).1, hpart, hrest]
        rfl

end Line

end JavaHighlight
