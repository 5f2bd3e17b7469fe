import JavaHighlight.Proofs.Meaning.Answers
import JavaHighlight.Proofs.Visit
import Mathlib.Data.List.Forall2

/-!
# Texts that say nothing

The text of a literal, of a number or of a blank is never looked at. Lexemes that differ in
nothing else (`Lexeme.Like`) mean the same (`Reading.like_ofLexeme`). From further in front, only
the texts of words are looked at: lexemes that differ in other texts (`Lexeme.LooksLike`) give
every question about what is ahead the same answer (`Lookahead.sameAnswers_of_looksLike`).
-/

namespace JavaHighlight

/-! ## Lexemes -/

/-- Lexemes that cannot be told apart from in front of them. -/
structure Lexeme.LooksLike (l l' : Lexeme) : Prop where
  shape_eq : l.shape = l'.shape
  word_eq : l.shape = .word → l.word = l'.word

namespace Lexeme.LooksLike

variable {l l' : Lexeme}

theorem refl (l : Lexeme) : LooksLike l l :=
  ⟨rfl, fun _ => rfl⟩

theorem isSymbol_eq (h : LooksLike l l') (s : Symbol) : l.isSymbol s = l'.isSymbol s := by
  rw [isSymbol, isSymbol, h.shape_eq]

theorem isName_eq (h : LooksLike l l') : l.isName = l'.isName := by
  unfold isName
  by_cases hword : l.shape = .word
  · rw [← h.shape_eq, h.word_eq hword]
  · rw [← h.shape_eq, decide_eq_false hword, Bool.false_and, Bool.false_and]

theorem stopsLambda_eq (h : LooksLike l l') :
    Lookahead.stopsLambda l = Lookahead.stopsLambda l' := by
  unfold Lookahead.stopsLambda
  rw [funext h.isSymbol_eq]

theorem mayStandInTypeArgs_eq (h : LooksLike l l') :
    Lookahead.mayStandInTypeArgs l = Lookahead.mayStandInTypeArgs l' := by
  unfold Lookahead.mayStandInTypeArgs
  rw [← h.shape_eq]
  cases hl : l.shape with
  | word => rw [h.word_eq hl]
  | _ => rfl

end Lexeme.LooksLike

/-- Whether the text of a lexeme of this shape is never looked at. -/
def Shape.isMute : Shape → Bool
  | .word | .symbol _ | .unterminatedBlockComment => false
  | _ => true

/-- Lexemes that differ at most in a text that is never looked at. -/
inductive Lexeme.Like : Lexeme → Lexeme → Prop
  | same (l : Lexeme) : Like l l
  | mute {shape : Shape} (hshape : shape.isMute = true) (a b : List Char) :
      Like ⟨shape, a⟩ ⟨shape, b⟩

theorem Lexeme.Like.looksLike {l l' : Lexeme} (h : Like l l') : LooksLike l l' := by
  cases h with
  | same => exact .refl l
  | @mute shape hshape =>
    refine ⟨rfl, fun hword => ?_⟩
    obtain rfl : shape = .word := hword
    cases hshape

theorem Lexeme.Like.shape_eq {l l' : Lexeme} (h : Like l l') : l.shape = l'.shape :=
  h.looksLike.shape_eq

/-! ## Lookaheads -/

namespace Lookahead

variable {a b : List Lexeme}

theorem head?_isSymbol_eq (h : List.Forall₂ Lexeme.LooksLike a b) (s : Symbol) :
    a.head?.any (·.isSymbol s) = b.head?.any (·.isSymbol s) := by
  cases h with
  | nil => rfl
  | cons hl _ => exact hl.isSymbol_eq s

theorem resolveAngle_eq (h : List.Forall₂ Lexeme.LooksLike a b) (fuel depth : Nat) :
    resolveAngle fuel depth a = resolveAngle fuel depth b := by
  induction h generalizing fuel depth with
  | nil => rfl
  | cons hl _ ih =>
    cases fuel with
    | zero => rfl
    | succ fuel =>
      simp only [resolveAngle, hl.isSymbol_eq, hl.shape_eq, hl.mayStandInTypeArgs_eq, ih]

theorem closesBeforeArrow_eq (h : List.Forall₂ Lexeme.LooksLike a b) (fuel depth : Nat) :
    closesBeforeArrow fuel depth a = closesBeforeArrow fuel depth b := by
  induction h generalizing fuel depth with
  | nil => rfl
  | cons hl hrest ih =>
    cases fuel with
    | zero => rfl
    | succ fuel =>
      simp only [closesBeforeArrow, hl.isSymbol_eq, hl.stopsLambda_eq, head?_isSymbol_eq hrest, ih]

theorem annotationWord?_eq (h : List.Forall₂ Lexeme.LooksLike a b) :
    annotationWord? a = annotationWord? b := by
  cases h with
  | nil => rfl
  | @cons l l' ls ls' hl _ =>
    unfold annotationWord?
    rw [List.head?_cons, List.head?_cons, Option.filter_some, Option.filter_some, ← hl.shape_eq]
    by_cases hword : l.shape = .word
    · rw [if_pos (decide_eq_true hword), if_pos (decide_eq_true hword)]
      exact congrArg some (hl.word_eq hword)
    · rw [if_neg (by simpa using hword), if_neg (by simpa using hword)]

/-- The header of a module is read two lexemes at a time, so one more in front has to be dealt
with together with those behind it. -/
theorem moduleHeader_eq (h : List.Forall₂ Lexeme.LooksLike a b) :
    moduleHeader a = moduleHeader b ∧
      ∀ l l', Lexeme.LooksLike l l' → moduleHeader (l :: a) = moduleHeader (l' :: b) := by
  induction h with
  | nil => exact ⟨rfl, fun _ _ _ => rfl⟩
  | @cons next next' ls ls' hnext _ ih =>
    refine ⟨ih.2 next next' hnext, fun l l' hl => ?_⟩
    rw [moduleHeader, moduleHeader, hl.isName_eq, hnext.isSymbol_eq, hnext.isSymbol_eq, ih.1]

theorem openModuleHeader_eq (h : List.Forall₂ Lexeme.LooksLike a b) :
    openModuleHeader a = openModuleHeader b := by
  cases h with
  | nil => rfl
  | @cons l l' ls ls' hl hrest =>
    rw [openModuleHeader, openModuleHeader, ← hl.shape_eq, (moduleHeader_eq hrest).1]
    by_cases hword : l.shape = .word
    · rw [hl.word_eq hword]
    · simp only [decide_eq_false hword, Bool.false_and]

theorem recordHeader_eq (h : List.Forall₂ Lexeme.LooksLike a b) :
    recordHeader a = recordHeader b := by
  cases h with
  | nil => rfl
  | cons hl hrest =>
    cases hrest with
    | nil => rfl
    | cons hnext _ =>
      rw [recordHeader, recordHeader, hl.isName_eq, hnext.isSymbol_eq, hnext.isSymbol_eq]

theorem sameAnswers_of_looksLike (h : List.Forall₂ Lexeme.LooksLike a b) : SameAnswers a b where
  angle := resolveAngle_eq h _ _
  lambdaParams := closesBeforeArrow_eq h _ _
  opensCall := head?_isSymbol_eq h _
  annotationWord? := annotationWord?_eq h
  moduleHeader := (moduleHeader_eq h).1
  openModuleHeader := openModuleHeader_eq h
  recordHeader := recordHeader_eq h

end Lookahead

/-! ## Readings -/

/-- The kinds of tokens whose texts matter to the context. -/
def TokenKind.worded : List TokenKind := [.keyword, .moduleKeyword, .annotationPart]

/-- A problem without the character that it names. -/
def Problem.anonymous : Problem → Problem
  | .unknownCharacter _ => .unknownCharacter '\x00'
  | problem => problem

/-- Pieces that differ at most in their lengths and in texts that do not matter. -/
structure Piece.Like (p q : Piece) : Prop where
  kind : p.kind = q.kind
  flags : p.flags = q.flags
  opensLambda : p.opensLambda = q.opensLambda
  text : p.kind ∈ TokenKind.worded → p.text = q.text

theorem Piece.Like.refl (p : Piece) : Piece.Like p p :=
  ⟨rfl, rfl, rfl, fun _ => rfl⟩

/-- Readings with pieces alike that find the same wrong, whatever character it is. -/
structure Reading.Like (r q : Reading) : Prop where
  pieces : List.Forall₂ Piece.Like r.pieces q.pieces
  problem : r.problem.map Problem.anonymous = q.problem.map Problem.anonymous

namespace Reading

theorem Like.refl (r : Reading) : Like r r :=
  ⟨List.forall₂_same.mpr fun p _ => Piece.Like.refl p, rfl⟩

theorem like_plain (l l' : Lexeme) {kind : TokenKind} (h : kind ∉ TokenKind.worded) :
    Like (plain l kind) (plain l' kind) :=
  ⟨.cons ⟨rfl, rfl, rfl, fun hkind => absurd hkind h⟩ .nil, rfl⟩

theorem like_faulty (l l' : Lexeme) {kind : TokenKind} (h : kind ∉ TokenKind.worded)
    {problem problem' : Problem} (hproblem : problem.anonymous = problem'.anonymous) :
    Like (faulty l kind problem) (faulty l' kind problem') :=
  ⟨.cons ⟨rfl, rfl, rfl, fun hkind => absurd hkind h⟩ .nil, congrArg some hproblem⟩

theorem like_ofOpen (mode : Mode) (l l' : Lexeme) {kind faultyKind : TokenKind}
    (h : kind ∉ TokenKind.worded) (hfaulty : faultyKind ∉ TokenKind.worded) (problem : Problem) :
    Like (ofOpen mode l kind faultyKind problem) (ofOpen mode l' kind faultyKind problem) := by
  cases mode with
  | whole => exact like_faulty l l' hfaulty rfl
  | line => exact like_plain l l' h

/-- Lexemes that differ in mute texts only mean the same. -/
theorem like_ofLexeme {l l' : Lexeme} (h : Lexeme.Like l l') {a b : List Lexeme}
    (hahead : List.Forall₂ Lexeme.Like a b) (mode : Mode) (ctx : Context) :
    Like (ofLexeme mode ctx l a) (ofLexeme mode ctx l' b) := by
  have hlooks := hahead.imp fun _ _ hlike => hlike.looksLike
  rw [ofLexeme_congr_answers (Lookahead.sameAnswers_of_looksLike hlooks)]
  cases h with
  | same => exact Like.refl _
  | @mute shape hshape text text' =>
    unfold ofLexeme
    cases shape with
    | word | symbol s | unterminatedBlockComment => cases hshape
    | unterminatedString | unterminatedCharacter =>
      exact like_faulty _ _ (by decide) rfl
    | unknown | stray => exact like_faulty _ _ (by decide) rfl
    | unterminatedTextBlock => exact like_ofOpen mode _ _ (by decide) (by decide) _
    | unterminatedNativeBlock =>
      have hkind : TokenKind.nativeBlock ∉ TokenKind.worded := by decide
      exact like_ofOpen mode _ _ hkind hkind _
    | endOfInput => exact Like.refl _
    | _ => exact like_plain _ _ (by decide)

end Reading

/-! ## What is remembered -/

namespace Context

/-- Only the texts of a few kinds are looked at when a token is taken in. -/
theorem observe_eq_of_not_worded {kind : TokenKind} (h : kind ∉ TokenKind.worded) (ctx : Context)
    (text text' : String) (opensLambda : Bool) :
    ctx.observe kind text opensLambda = ctx.observe kind text' opensLambda := by
  have hkeyword : kind ≠ .keyword := by
    rintro rfl
    exact h (by decide)
  have hdeclares : ctx.declares? kind text = ctx.declares? kind text' := by
    unfold declares?
    rw [if_neg fun hkind => hkeyword hkind.1, if_neg fun hkind => hkeyword hkind.1]
  have hheader : ctx.headerAfter kind text = ctx.headerAfter kind text' := by
    unfold headerAfter
    rw [hdeclares]
    cases kind <;> first | rfl | exact absurd (by decide) h
  have hannotation : ctx.annotationAfter kind text = ctx.annotationAfter kind text' := by
    unfold annotationAfter
    cases kind <;> first | rfl | exact absurd (by decide) h
  unfold observe
  rw [hheader, hannotation, hdeclares, decide_eq_false hkeyword, Bool.false_and, Bool.false_and]

theorem observePiece_eq {p q : Piece} (h : Piece.Like p q) (ctx : Context) :
    ctx.observePiece p = ctx.observePiece q := by
  unfold observePiece
  rw [← h.kind, ← h.opensLambda]
  by_cases hkind : p.kind ∈ TokenKind.worded
  · rw [h.text hkind]
  · exact observe_eq_of_not_worded hkind ctx _ _ _

end Context

end JavaHighlight
