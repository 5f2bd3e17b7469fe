import JavaHighlight.Reading
import JavaHighlight.Proofs.Lines.Border
import JavaHighlight.Proofs.Meaning.Answers

/-!
# Lookahead that stays on its line

Looking ahead never goes past a semicolon or a brace. So lexemes that agree up to one of these
give every lookahead the same answer (`Lookahead.Agree`), and a lexeme that has its end means
the same in front of both, whether they are those of the source or those of a line
(`Reading.ofLexeme_congr`).
-/

namespace JavaHighlight

namespace Lookahead

/-- The lexemes ahead are the same up to a semicolon or a brace, or all of them are the same. -/
inductive Agree : List Lexeme → List Lexeme → Prop
  | nil : Agree [] []
  | stop {l : Lexeme} (hl : stopsLambda l = true) (a b : List Lexeme) : Agree (l :: a) (l :: b)
  | cons (l : Lexeme) {a b : List Lexeme} (h : Agree a b) : Agree (l :: a) (l :: b)

theorem Agree.refl (a : List Lexeme) : Agree a a := by
  induction a with
  | nil => exact .nil
  | cons l a ih => exact .cons l ih

/-- Lexemes that end with a semicolon or a brace decide what lies ahead. -/
theorem agree_append {s : List Lexeme} (hne : s ≠ []) (hs : ∀ l ∈ s.getLast?, stopsLambda l = true)
    (a b : List Lexeme) : Agree (s ++ a) (s ++ b) := by
  induction s with
  | nil => exact absurd rfl hne
  | cons l s ih =>
    by_cases htail : s = []
    · subst htail
      exact .stop (hs l rfl) a b
    · obtain ⟨l', s, rfl⟩ := List.exists_cons_of_ne_nil htail
      rw [List.getLast?_cons_cons] at hs
      exact .cons l (ih htail hs)

variable {a b : List Lexeme} {l : Lexeme}

theorem exists_of_stopsLambda (h : stopsLambda l = true) :
    ∃ s ∈ lambdaStops, l.shape = .symbol s := by
  obtain ⟨s, hs, hl⟩ := List.any_eq_true.mp h
  exact ⟨s, hs, of_decide_eq_true hl⟩

theorem Agree.head? (h : Agree a b) : a.head? = b.head? := by
  cases h <;> rfl

theorem isName_of_stopsLambda (h : stopsLambda l = true) : l.isName = false := by
  obtain ⟨s, -, hl⟩ := exists_of_stopsLambda h
  rw [Lexeme.isName, hl]
  rfl

theorem isSymbol_of_stopsLambda (h : stopsLambda l = true) {s : Symbol} (hs : s ∉ lambdaStops) :
    l.isSymbol s = false := by
  obtain ⟨s', hs', hl⟩ := exists_of_stopsLambda h
  rw [Lexeme.isSymbol, hl, decide_eq_false_iff_not, Shape.symbol.injEq]
  rintro rfl
  exact hs hs'

theorem resolveAngle_of_stopsLambda (h : stopsLambda l = true) (fuel depth : Nat)
    (ls : List Lexeme) : resolveAngle (fuel + 1) depth (l :: ls) = .comparison := by
  obtain ⟨s, hs, hl⟩ := exists_of_stopsLambda h
  have key : ∀ s ∈ lambdaStops, s.closingAngles = 0 ∧ s ∉ typeArgSymbols := by decide
  have hclosing : l.shape.closingAngles = 0 := by rw [hl]; exact (key s hs).1
  have hstand : mayStandInTypeArgs l = false := by
    rw [mayStandInTypeArgs, hl]
    exact decide_eq_false (key s hs).2
  rw [resolveAngle, isSymbol_of_stopsLambda h (by decide), if_neg Bool.false_ne_true,
    if_pos hclosing, hstand, if_neg Bool.false_ne_true]

theorem Agree.resolveAngle_eq (h : Agree a b) (fuel depth : Nat) :
    resolveAngle fuel depth a = resolveAngle fuel depth b := by
  induction h generalizing fuel depth with
  | nil => rfl
  | stop hl a b =>
    cases fuel with
    | zero => rfl
    | succ fuel => rw [resolveAngle_of_stopsLambda hl, resolveAngle_of_stopsLambda hl]
  | cons l h ih =>
    cases fuel with
    | zero => rfl
    | succ fuel => simp only [resolveAngle, ih]

theorem Agree.angle_eq (h : Agree a b) : angle a = angle b :=
  h.resolveAngle_eq _ _

theorem closesBeforeArrow_of_stopsLambda (h : stopsLambda l = true) (fuel depth : Nat)
    (ls : List Lexeme) : closesBeforeArrow (fuel + 1) depth (l :: ls) = false := by
  rw [closesBeforeArrow, isSymbol_of_stopsLambda h (by decide),
    isSymbol_of_stopsLambda h (by decide), if_neg Bool.false_ne_true, if_neg Bool.false_ne_true,
    if_pos h]

theorem Agree.closesBeforeArrow_eq (h : Agree a b) (fuel depth : Nat) :
    closesBeforeArrow fuel depth a = closesBeforeArrow fuel depth b := by
  induction h generalizing fuel depth with
  | nil => rfl
  | stop hl a b =>
    cases fuel with
    | zero => rfl
    | succ fuel => rw [closesBeforeArrow_of_stopsLambda hl, closesBeforeArrow_of_stopsLambda hl]
  | cons l h ih =>
    cases fuel with
    | zero => rfl
    | succ fuel => simp only [closesBeforeArrow, ih, h.head?]

theorem Agree.lambdaParams_eq (h : Agree a b) : lambdaParams a = lambdaParams b :=
  h.closesBeforeArrow_eq _ _

theorem Agree.opensCall_eq (h : Agree a b) : opensCall a = opensCall b := by
  rw [opensCall, opensCall, h.head?]

theorem Agree.annotationWord?_eq (h : Agree a b) : annotationWord? a = annotationWord? b := by
  rw [annotationWord?, annotationWord?, h.head?]

theorem moduleHeader_of_not_isName (h : l.isName = false) (ls : List Lexeme) :
    moduleHeader (l :: ls) = false := by
  cases ls with
  | nil => rfl
  | cons next ls => rw [moduleHeader, h, Bool.false_and]

/-- The header of a module is read two lexemes at a time, so one more in front has to be dealt
with together with those that agree. -/
theorem Agree.moduleHeader_eq (h : Agree a b) :
    moduleHeader a = moduleHeader b ∧ ∀ l, moduleHeader (l :: a) = moduleHeader (l :: b) := by
  induction h with
  | nil => exact ⟨rfl, fun _ => rfl⟩
  | @stop next hl a b =>
    have hname := isName_of_stopsLambda hl
    have hdot : next.isSymbol .dot = false := isSymbol_of_stopsLambda hl (by decide)
    refine ⟨?_, fun l => ?_⟩
    · rw [moduleHeader_of_not_isName hname, moduleHeader_of_not_isName hname]
    · rw [moduleHeader, moduleHeader, hdot, Bool.false_and, Bool.false_and]
  | cons next h ih =>
    refine ⟨ih.2 next, fun l => ?_⟩
    rw [moduleHeader, moduleHeader, ih.1]

theorem Agree.openModuleHeader_eq (h : Agree a b) : openModuleHeader a = openModuleHeader b := by
  cases h with
  | nil => rfl
  | stop hl a b =>
    obtain ⟨s, -, hl'⟩ := exists_of_stopsLambda hl
    rw [openModuleHeader, openModuleHeader, hl']
    rfl
  | cons l h => rw [openModuleHeader, openModuleHeader, h.moduleHeader_eq.1]

theorem Agree.recordHeader_eq (h : Agree a b) : recordHeader a = recordHeader b := by
  have hshort : ∀ {l : Lexeme}, stopsLambda l = true → ∀ ls, recordHeader (l :: ls) = false := by
    intro l hl ls
    cases ls with
    | nil => rfl
    | cons next ls => rw [recordHeader, isName_of_stopsLambda hl, Bool.false_and]
  cases h with
  | nil => rfl
  | stop hl a b => rw [hshort hl, hshort hl]
  | cons l h => cases h <;> rfl

theorem Agree.sameAnswers (h : Agree a b) : SameAnswers a b where
  angle := h.angle_eq
  lambdaParams := h.lambdaParams_eq
  opensCall := h.opensCall_eq
  annotationWord? := h.annotationWord?_eq
  moduleHeader := h.moduleHeader_eq.1
  openModuleHeader := h.openModuleHeader_eq
  recordHeader := h.recordHeader_eq

end Lookahead

namespace Reading

open Lookahead (Agree stopsLambda lambdaStops)

variable {a b : List Lexeme}

theorem ofSymbol_of_mem_lambdaStops {s : Symbol} (h : s ∈ lambdaStops) (ctx : Context)
    (l : Lexeme) (a b : List Lexeme) : ofSymbol ctx l a s = ofSymbol ctx l b s := by
  rcases List.mem_cons.mp h with rfl | h
  · rfl
  rcases List.mem_cons.mp h with rfl | h
  · rfl
  obtain rfl := List.mem_singleton.mp h
  rfl

/-- A lexeme that has its end means the same in a line and in the whole source, where what is
ahead agrees or does not matter. -/
theorem ofLexeme_congr {l : Lexeme} (hopen : l.shape.isOpen = false)
    (h : l.shape.isTrivia = false → stopsLambda l = false → Agree a b) (ctx : Context) :
    ofLexeme .line ctx l a = ofLexeme .whole ctx l b := by
  unfold ofLexeme
  cases hl : l.shape with
  | word =>
    have hagree : Agree a b := h (by rw [hl]; rfl) (by simp [stopsLambda, Lexeme.isSymbol, hl])
    exact ofWord_congr hagree.sameAnswers ctx l
  | symbol s =>
    by_cases hstop : s ∈ lambdaStops
    · exact ofSymbol_of_mem_lambdaStops hstop ctx l a b
    · have hstops : stopsLambda l = false := by
        rw [Bool.eq_false_iff]
        intro hstops
        obtain ⟨s', hs', hl'⟩ := Lookahead.exists_of_stopsLambda hstops
        rw [hl] at hl'
        cases hl'
        exact hstop hs'
      exact ofSymbol_congr (h (by rw [hl]; rfl) hstops).sameAnswers ctx l s
  | unterminatedTextBlock | unterminatedBlockComment | unterminatedNativeBlock =>
    rw [hl] at hopen
    cases hopen
  | _ => rfl

end Reading

end JavaHighlight
