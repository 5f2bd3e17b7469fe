import JavaHighlight.Proofs.Steps

/-!
# What a word is read as

The kind of a word follows from the context and the lexemes ahead (`Reading.wordKind`), and some
kinds tell what was found ahead: a parenthesis for the name of a function, a header for the words
`record`, `module` and `open`. Words are the lexemes that start with a letter
(`Lexeme.Spelled.isWord_iff`), so they can be told from their tokens.
-/

namespace JavaHighlight

/-! ## Texts of words and symbols -/

def startsWord (text : List Char) : Bool :=
  text.head?.any isWordStart

namespace Lexeme

/-- A lexeme of a text, or a byte of a character that was cut in two. -/
def Spelled (l : Lexeme) : Prop :=
  l = stray ∨ ∃ cs, l ∈ ofText cs

theorem isBlank_of_isWordStart {c : Char} (h : isWordStart c = true) : isBlank c = false := by
  have key : [' ', '\t', '\x0c', '\n', '\r'].any isWordStart = false := by decide +kernel
  rw [Bool.eq_false_iff]
  intro hblank
  have hmem : c ∈ [' ', '\t', '\x0c', '\n', '\r'] := by simpa [isBlank, or_assoc] using hblank
  exact List.any_eq_false.mp key c hmem h

theorem measurePlain_eq_word_iff (c : Char) (cs : List Char) :
    (measurePlain c cs).1 = .word ↔ isWordStart c = true := by
  unfold measurePlain
  split_ifs with hblank hword hdigit hpoint
  · refine iff_of_false (by simp) fun hword => ?_
    rw [isBlank_of_isWordStart hword] at hblank
    cases hblank
  · exact iff_of_true rfl hword
  · refine iff_of_false ?_ hword
    rcases Number.scan_shape (c :: cs) with ⟨radix, h⟩ | h <;> rw [h] <;> simp
  · exact iff_of_false (by simp [Number.scanFraction]) hword
  · refine iff_of_false ?_ hword
    split <;> simp

theorem measure_of_isWordStart {c : Char} (h : isWordStart c = true) (cs : List Char) :
    measure (c :: cs) = (.word, 1 + Extent.run isWordPart cs) := by
  have key : ['"', '\'', '/'].any isWordStart = false := by decide +kernel
  have hne : ∀ d ∈ ['"', '\'', '/'], c ≠ d := by
    rintro d hd rfl
    exact List.any_eq_false.mp key c hd h
  rw [measure_eq_measurePlain (hne _ (by simp)) (hne _ (by simp))
    fun hslash => absurd hslash (hne _ (by simp)), measurePlain,
    if_neg (by simp [isBlank_of_isWordStart h]), if_pos h]

theorem measure_eq_word_iff (c : Char) (cs : List Char) :
    (measure (c :: cs)).1 = .word ↔ isWordStart c = true := by
  constructor
  · intro h
    rcases measure_cases c cs with h' | ⟨construct, ds, h'⟩ | h'
    · rw [h] at h'
      simp at h'
    · rw [h, Construct.shapeIn] at h'
      cases construct <;> split at h' <;> cases h'
    · rw [h'] at h
      exact (measurePlain_eq_word_iff c cs).mp h
  · intro h
    rw [measure_of_isWordStart h]

namespace Spelled

variable {l : Lexeme}

theorem isWord_iff (h : l.Spelled) : l.shape = .word ↔ startsWord l.text = true := by
  rcases h with rfl | ⟨cs, h⟩
  · exact iff_of_false (by decide) (by decide)
  · obtain ⟨c, ds, rfl⟩ := exists_eq_first h
    obtain ⟨n, hn⟩ : ∃ n, (measure (c :: ds)).2 = n + 1 :=
      ⟨_, (Nat.succ_pred_eq_of_pos (measure_pos c ds)).symm⟩
    rw [shape_first, text_first, hn, List.take_succ_cons]
    exact measure_eq_word_iff c ds

theorem text_of_symbol (h : l.Spelled) {s : Symbol} (hl : l.shape = .symbol s) :
    l.text = s.spelling.toList := by
  rcases h with rfl | ⟨cs, h⟩
  · cases hl
  · exact Lexeme.text_of_symbol h hl

theorem word_of_symbol (h : l.Spelled) {s : Symbol} (hl : l.shape = .symbol s) :
    l.word = s.spelling := by
  rw [word, h.text_of_symbol hl, String.ofList_toList]

end Spelled

theorem spelled_of_mem_ofTextFrom {offset : Nat} {cs : List Char} {l : Lexeme}
    (h : l ∈ ofTextFrom offset cs) : l.Spelled :=
  (mem_ofTextFrom h).imp_right fun h => ⟨_, h⟩

end Lexeme

/-! ## The kind of a word -/

namespace Keyword

def kinds : List TokenKind := [
  .keyword, .keywordControl, .keywordReturn, .keywordNew, .keywordThis, .booleanLiteral,
  .nullLiteral]

theorem mem_kinds_of_kind? {word : String} {kind : TokenKind} (h : kind? word = some kind) :
    kind ∈ kinds := by
  unfold kind? at h
  split_ifs at h <;> cases h <;> decide

theorem kind?_of_not_isReserved {word : String} (h : isReserved word = false) :
    kind? word = none :=
  Option.not_isSome_iff_eq_none.mp (by simpa [isReserved] using h)

end Keyword

namespace Reading

variable {ctx : Context} {word : String} {ahead : List Lexeme}

/-- The kind of a word in its context. -/
def wordKind (ctx : Context) (word : String) (ahead : List Lexeme) : TokenKind :=
  if ctx.awaitsAnnotationName then .annotationPart
  else match Keyword.kind? word with
    | some kind => kind
    | none =>
      if ctx.typeNameAwaited then .className
      else (restrictedKind? ctx word ahead).getD (nameKind ctx ahead)

theorem pieces_ofWord (ctx : Context) (l : Lexeme) (ahead : List Lexeme) :
    ∃ flags, (ofWord ctx l ahead).pieces =
      [⟨wordKind ctx l.word ahead, l.text, l.length, flags, false⟩] := by
  unfold ofWord wordKind
  split
  · exact ⟨_, rfl⟩
  · cases Keyword.kind? l.word with
    | some kind => exact ⟨_, rfl⟩
    | none =>
      dsimp only
      split
      · exact ⟨_, rfl⟩
      · cases restrictedKind? ctx l.word ahead <;> exact ⟨_, rfl⟩

theorem wordKind_of_awaitsAnnotationName (h : ctx.awaitsAnnotationName = true) (word : String)
    (ahead : List Lexeme) : wordKind ctx word ahead = .annotationPart :=
  if_pos h

/-- A word that is neither reserved nor part of an annotation names a type where one is
awaited. -/
theorem wordKind_of_typeNameAwaited (h : ctx.awaitsAnnotationName = false)
    (htype : ctx.typeNameAwaited = true) (hword : Keyword.isReserved word = false)
    (ahead : List Lexeme) : wordKind ctx word ahead = .className := by
  unfold wordKind
  rw [if_neg (by simp [h]), Keyword.kind?_of_not_isReserved hword]
  exact if_pos htype

theorem wordKind_of_kind? (h : ctx.awaitsAnnotationName = false) {kind : TokenKind}
    (hkind : Keyword.kind? word = some kind) (ahead : List Lexeme) :
    wordKind ctx word ahead = kind := by
  unfold wordKind
  rw [if_neg (by simp [h]), hkind]

theorem wordKind_of_name (h : ctx.awaitsAnnotationName = false)
    (htype : ctx.typeNameAwaited = false) (hword : Keyword.isReserved word = false)
    (ahead : List Lexeme) :
    wordKind ctx word ahead =
      (restrictedKind? ctx word ahead).getD (nameKind ctx ahead) := by
  unfold wordKind
  rw [if_neg (by simp [h]), Keyword.kind?_of_not_isReserved hword]
  exact if_neg (by simp [htype])

/-- A kind that neither annotations, reserved words nor names of types have is that of a word
with a meaning in its place, or of a name. -/
theorem restricted_or_name {kind : TokenKind} (h : wordKind ctx word ahead = kind)
    (hkind : kind ∉ .annotationPart :: .className :: Keyword.kinds) :
    restrictedKind? ctx word ahead = some kind ∨ nameKind ctx ahead = kind := by
  simp only [List.mem_cons, not_or] at hkind
  unfold wordKind at h
  split at h
  · exact absurd h.symm hkind.1
  · split at h
    · next hkind' =>
      subst h
      exact absurd (Keyword.mem_kinds_of_kind? hkind') hkind.2.2
    · split at h
      · exact absurd h.symm hkind.2.1
      · cases hrestricted : restrictedKind? ctx word ahead with
        | none =>
          rw [hrestricted] at h
          exact .inr h
        | some kind' =>
          rw [hrestricted] at h
          exact .inl (congrArg some h)

theorem opensCall_of_functionName (h : wordKind ctx word ahead = .functionName) :
    Lookahead.opensCall ahead = true := by
  rcases restricted_or_name h (by decide) with h | h
  · rcases restrictedKind?_mem h with h | h <;> cases h
  · unfold nameKind at h
    split_ifs at h
    assumption

/-- A word with a meaning in its place is `record` in front of the header of a record, or a
keyword of modules: a directive directly inside of a module, or a word in front of the header of
a module, outside of all else. -/
theorem restrictedKind?_cases {kind : TokenKind}
    (h : restrictedKind? ctx word ahead = some kind) :
    (kind = .keyword ∧ word = "record" ∧ Lookahead.recordHeader ahead = true) ∨
    (kind = .moduleKeyword ∧ ctx.top = some .moduleBody ∧ word ∈ Keyword.moduleDirectives) ∨
    (kind = .moduleKeyword ∧ ctx.top = none ∧ word = "module" ∧
      Lookahead.moduleHeader ahead = true) ∨
    (kind = .moduleKeyword ∧ ctx.top = none ∧ word = "open" ∧
      Lookahead.openModuleHeader ahead = true) := by
  unfold restrictedKind? at h
  split at h
  · next htop =>
    split at h
    · next hdirective => exact .inr (.inl ⟨(Option.some.inj h).symm, htop, hdirective⟩)
    · cases h
  split at h
  · next hrecord =>
    split at h
    · next hheader =>
      exact .inl ⟨(Option.some.inj h).symm, hrecord, (Bool.and_eq_true_iff.mp hheader).2⟩
    · cases h
  split at h
  · next htop =>
    split at h
    · next hmodule =>
      rw [Bool.and_eq_true, decide_eq_true_eq] at hmodule
      exact .inr (.inr (.inl ⟨(Option.some.inj h).symm, htop, hmodule⟩))
    · split at h
      · next hopen =>
        rw [Bool.and_eq_true, decide_eq_true_eq] at hopen
        exact .inr (.inr (.inr ⟨(Option.some.inj h).symm, htop, hopen⟩))
      · cases h
  · cases h

theorem nameKind_ne_keyword (ctx : Context) (ahead : List Lexeme) :
    nameKind ctx ahead ≠ .keyword ∧ nameKind ctx ahead ≠ .moduleKeyword := by
  unfold nameKind
  split_ifs <;> simp

theorem recordHeader_of_keyword (h : wordKind ctx "record" ahead = .keyword) :
    Lookahead.recordHeader ahead = true := by
  have hnone : Keyword.kind? "record" = none := by decide
  unfold wordKind at h
  rw [hnone] at h
  split_ifs at h
  cases hrestricted : restrictedKind? ctx "record" ahead with
  | none =>
    rw [hrestricted] at h
    exact absurd h (nameKind_ne_keyword ctx ahead).1
  | some kind =>
    rw [hrestricted] at h
    obtain rfl : kind = .keyword := h
    rcases restrictedKind?_cases hrestricted with ⟨-, -, hheader⟩ | ⟨h, -⟩ | ⟨h, -⟩ | ⟨h, -⟩
    · exact hheader
    · cases h
    · cases h
    · cases h

theorem moduleKeyword_cases (h : wordKind ctx word ahead = .moduleKeyword) :
    (ctx.top = some .moduleBody ∧ word ∈ Keyword.moduleDirectives) ∨
    (ctx.top = none ∧ word = "module" ∧ Lookahead.moduleHeader ahead = true) ∨
    (ctx.top = none ∧ word = "open" ∧ Lookahead.openModuleHeader ahead = true) := by
  rcases restricted_or_name h (by decide) with h | h
  · rcases restrictedKind?_cases h with ⟨h, -⟩ | ⟨-, h⟩ | ⟨-, h⟩ | ⟨-, h⟩
    · cases h
    · exact .inl h
    · exact .inr (.inl h)
    · exact .inr (.inr h)
  · exact absurd h (nameKind_ne_keyword ctx ahead).2

end Reading

/-! ## The step of a word -/

namespace Context

variable {l : Lexeme}

theorem exists_script_word (hl : l.shape = .word) (mode : Mode) (ctx : Context)
    (ls : List Lexeme) :
    ∃ s, ctx.lexemeSteps mode l ls = [s] ∧ s.before = ctx ∧
      s.kind = Reading.wordKind ctx l.word ls ∧ s.piece.text = l.text ∧
      ctx.script mode (l :: ls) = s :: s.after.script mode ls := by
  have htrivia : ∀ kind ∈ Shape.wordKinds, kind.isTrivia = false := by decide
  obtain ⟨s, hsteps, hbefore, -, htext, hscript⟩ := exists_script_cons (by rw [hl]; rfl)
    (by rw [hl]; simp) (by rw [hl]; exact htrivia) mode ctx ls
  obtain ⟨flags, hpieces⟩ := Reading.pieces_ofWord ctx l ls
  have hpiece : s.piece ∈ (Reading.ofLexeme mode ctx l ls).pieces :=
    piece_mem_of_mem_steps (hsteps ▸ List.mem_singleton_self s)
  rw [Reading.ofLexeme, hl] at hpiece
  rw [hpieces, List.mem_singleton] at hpiece
  exact ⟨s, hsteps, hbefore, by rw [Step.kind, hpiece], htext, hscript⟩

theorem kind_of_word (hl : l.shape = .word) {mode : Mode} {ctx : Context} {ls : List Lexeme}
    {s : Step} (h : ctx.lexemeSteps mode l ls = [s]) :
    s.kind = Reading.wordKind ctx l.word ls := by
  obtain ⟨s', hsteps, -, hkind, -⟩ := exists_script_word hl mode ctx ls
  obtain rfl : s = s' := List.singleton_inj.mp (h.symm.trans hsteps)
  exact hkind

end Context

end JavaHighlight
