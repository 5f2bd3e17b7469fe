import JavaHighlight.Reading

/-!
# What a reading asks

A reading looks at the lexemes ahead only through a few questions, so lexemes for which all of
these have the same answers give the same reading (`Reading.ofLexeme_congr_answers`).
-/

namespace JavaHighlight

/-- All questions about the lexemes ahead have the same answers. -/
structure Lookahead.SameAnswers (a b : List Lexeme) : Prop where
  angle : angle a = angle b
  lambdaParams : lambdaParams a = lambdaParams b
  opensCall : opensCall a = opensCall b
  annotationWord? : annotationWord? a = annotationWord? b
  moduleHeader : moduleHeader a = moduleHeader b
  openModuleHeader : openModuleHeader a = openModuleHeader b
  recordHeader : recordHeader a = recordHeader b

namespace Reading

open Lookahead (SameAnswers)

variable {a b : List Lexeme}

theorem ofWord_congr (h : SameAnswers a b) (ctx : Context) (l : Lexeme) :
    ofWord ctx l a = ofWord ctx l b := by
  have hrestricted : restrictedKind? ctx l.word a = restrictedKind? ctx l.word b := by
    unfold restrictedKind?
    rw [h.recordHeader, h.moduleHeader, h.openModuleHeader]
  have hname : nameKind ctx a = nameKind ctx b := by
    unfold nameKind
    rw [h.opensCall]
  unfold ofWord
  rw [hrestricted, hname]

theorem ofSymbol_congr (h : SameAnswers a b) (ctx : Context) (l : Lexeme) (s : Symbol) :
    ofSymbol ctx l a s = ofSymbol ctx l b s := by
  have hat : ofAtSign l a = ofAtSign l b := by
    unfold ofAtSign
    rw [h.annotationWord?]
  have hless : ofLess ctx l a = ofLess ctx l b := by
    unfold ofLess
    rw [h.angle]
  have hparen : ofLeftParen ctx l a = ofLeftParen ctx l b := by
    unfold ofLeftParen
    rw [h.lambdaParams]
  unfold ofSymbol
  rw [hat, hless, hparen]

/-- What is ahead matters only through the answers it gives. -/
theorem ofLexeme_congr_answers (h : SameAnswers a b) (mode : Mode) (ctx : Context) (l : Lexeme) :
    ofLexeme mode ctx l a = ofLexeme mode ctx l b := by
  unfold ofLexeme
  rw [ofWord_congr h]
  cases l.shape with
  | symbol s => exact ofSymbol_congr h ctx l s
  | _ => rfl

end Reading

end JavaHighlight
