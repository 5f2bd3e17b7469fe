import JavaHighlight.Proofs.Lines.Closed
import JavaHighlight.Proofs.Meaning.Alike

/-!
# Trivia and mute texts do not matter

Two sources with the same significant lexemes, up to texts that are never looked at, are read in
step: at each significant lexeme the contexts are the same, and so is what the lexeme emits, up
to places (`Progress.run_sameSignificant`).
-/

namespace JavaHighlight

/-- The kind and the marks of a token, but whether it comes first on its line. -/
def Token.mark (token : Token) : TokenKind × Flags :=
  (token.kind, { token.flags with lineStart := false })

/-- Emissions that say the same, up to places. -/
structure Emission.SaysSame (a b : Emission) : Prop where
  marks : a.tokens.map Token.mark = b.tokens.map Token.mark
  problems : a.diagnostics.map (·.problem.anonymous) = b.diagnostics.map (·.problem.anonymous)

theorem Emission.SaysSame.append {a b c d : Emission} (h : a.SaysSame b) (h' : c.SaysSame d) :
    (a ++ c).SaysSame (b ++ d) := by
  constructor
  · rw [tokens_append, tokens_append, List.map_append, List.map_append, h.marks, h'.marks]
  · rw [diagnostics_append, diagnostics_append, List.map_append, List.map_append, h.problems,
      h'.problems]

namespace Progress

variable {i j : LineIndex} {s t : Nat} {p q : Progress}

/-! ## Lexemes in step -/

theorem mark_emitPiece (i : LineIndex) (s : Nat) (piece : Piece) (p : Progress) :
    (p.emitPiece i s piece).1.tokens.map Token.mark = [(piece.kind, { piece.flags with
      error := piece.flags.error || (p.context.issue? piece.kind).isSome
      lineStart := false })] := rfl

theorem problem_emitPiece (i : LineIndex) (s : Nat) (piece : Piece) (p : Progress) :
    (p.emitPiece i s piece).1.diagnostics.map (·.problem.anonymous) =
      (p.context.issue? piece.kind).toList.map Problem.unbalanced := by
  show List.map _ (List.map _ _) = _
  rw [List.map_map]
  rfl

theorem emitPiece_like {x y : Piece} (h : Piece.Like x y) (hctx : p.context = q.context) :
    (p.emitPiece i s x).1.SaysSame (q.emitPiece j t y).1 ∧
      (p.emitPiece i s x).2.context = (q.emitPiece j t y).2.context := by
  refine ⟨⟨?_, ?_⟩, ?_⟩
  · rw [mark_emitPiece, mark_emitPiece, hctx, h.kind, h.flags]
  · rw [problem_emitPiece, problem_emitPiece, hctx, h.kind]
  · rw [context_emitPiece, context_emitPiece, hctx, Context.observePiece_eq h]

theorem emitPieces_like {xs ys : List Piece} (h : List.Forall₂ Piece.Like xs ys)
    (hctx : p.context = q.context) :
    (p.emitPieces i s xs).1.SaysSame (q.emitPieces j t ys).1 ∧
      (p.emitPieces i s xs).2.context = (q.emitPieces j t ys).2.context := by
  induction h generalizing s t p q with
  | nil => exact ⟨⟨rfl, rfl⟩, hctx⟩
  | @cons x y xs ys hxy _ ih =>
    obtain ⟨hfirst, hnext⟩ := emitPiece_like (i := i) (j := j) (s := s) (t := t) hxy hctx
    obtain ⟨hrest, hlast⟩ := ih (s := s + x.length) (t := t + y.length) hnext
    exact ⟨hfirst.append hrest, hlast⟩

/-- Lexemes that differ in mute texts only say the same in the same context. -/
theorem emit_like (mode : Mode) (o o' : Occurrence) (h : Lexeme.Like o.lexeme o'.lexeme)
    (hahead : List.Forall₂ Lexeme.Like o.ahead o'.ahead) (hctx : p.context = q.context) :
    (p.emit mode i o).1.SaysSame (q.emit mode j o').1 ∧
      (p.emit mode i o).2.context = (q.emit mode j o').2.context := by
  have hreading := Reading.like_ofLexeme h hahead mode p.context
  obtain ⟨hpieces, hlast⟩ := emitPieces_like (i := i) (j := j) (s := o.start) (t := o'.start)
    hreading.pieces hctx
  have hproblems : ∀ (reading : Reading) (span : Span),
      (reading.problem.toList.map fun problem => (⟨span, problem⟩ : Diagnostic)).map
        (·.problem.anonymous) = (reading.problem.map Problem.anonymous).toList := by
    intro reading span
    cases reading.problem <;> rfl
  unfold emit
  rw [← hctx]
  refine ⟨Emission.SaysSame.append ⟨rfl, ?_⟩ hpieces, hlast⟩
  rw [hproblems, hproblems, hreading.problem]

end Progress

/-! ## Runs in step -/

/-- Lists with the same significant lexemes, up to mute texts. Trivia may be passed on either
side at any time. -/
inductive Lexeme.SameSignificant : List Lexeme → List Lexeme → Prop
  | nil : SameSignificant [] []
  | left {l : Lexeme} (hl : l.shape.isTrivia = true) {a b : List Lexeme}
      (h : SameSignificant a b) : SameSignificant (l :: a) b
  | right {l : Lexeme} (hl : l.shape.isTrivia = true) {a b : List Lexeme}
      (h : SameSignificant a b) : SameSignificant a (l :: b)
  | both {l l' : Lexeme} (hl : l.shape.isTrivia = false) (hlike : Like l l') {a b : List Lexeme}
      (h : SameSignificant a b) : SameSignificant (l :: a) (l' :: b)

namespace Lexeme

theorem filter_of_isTrivia {l : Lexeme} (h : l.shape.isTrivia = true) (ls : List Lexeme) :
    (l :: ls).filter (·.isSignificant) = ls.filter (·.isSignificant) := by
  rw [filter_isSignificant_cons, isTrivia, if_pos h]

theorem filter_of_significant {l : Lexeme} (h : l.shape.isTrivia = false) (ls : List Lexeme) :
    (l :: ls).filter (·.isSignificant) = l :: ls.filter (·.isSignificant) := by
  rw [filter_isSignificant_cons, isTrivia, h]
  rfl

namespace SameSignificant

variable {a b : List Lexeme}

theorem forall₂ (h : SameSignificant a b) :
    List.Forall₂ Like (a.filter (·.isSignificant)) (b.filter (·.isSignificant)) := by
  induction h with
  | nil => exact .nil
  | left hl _ ih => rw [filter_of_isTrivia hl]; exact ih
  | right hl _ ih => rw [filter_of_isTrivia hl]; exact ih
  | both hl hlike _ ih =>
    rw [filter_of_significant hl, filter_of_significant (hlike.shape_eq ▸ hl)]
    exact .cons hlike ih

theorem of_forall₂
    (h : List.Forall₂ Like (a.filter (·.isSignificant)) (b.filter (·.isSignificant))) :
    SameSignificant a b := by
  induction a generalizing b with
  | nil =>
    induction b with
    | nil => exact .nil
    | cons l b ih =>
      cases hl : l.shape.isTrivia with
      | true =>
        rw [filter_of_isTrivia hl] at h
        exact .right hl (ih h)
      | false =>
        rw [filter_of_significant hl] at h
        cases h
  | cons l a iha =>
    cases hl : l.shape.isTrivia with
    | true =>
      rw [filter_of_isTrivia hl] at h
      exact .left hl (iha h)
    | false =>
      rw [filter_of_significant hl] at h
      -- Trivia on the right are passed one by one until the lexeme that goes with `l` comes.
      induction b with
      | nil => cases h
      | cons l' b ihb =>
        cases hl' : l'.shape.isTrivia with
        | true =>
          rw [filter_of_isTrivia hl'] at h
          exact .right hl' (ihb h)
        | false =>
          rw [filter_of_significant hl'] at h
          obtain ⟨hlike, hrest⟩ := List.forall₂_cons.mp h
          exact .both hl hlike (iha hrest)

end SameSignificant

end Lexeme

namespace Progress

/-- What the significant lexemes of a run emit. -/
def significantRun (mode : Mode) (index : LineIndex) : Progress → List Occurrence → Emission
  | _, [] => .empty
  | progress, o :: os =>
    let (emission, progress) := progress.emit mode index o
    let rest := significantRun mode index progress os
    if o.lexeme.isSignificant then emission ++ rest else rest

theorem significantRun_cons (mode : Mode) (index : LineIndex) (progress : Progress)
    (o : Occurrence) (os : List Occurrence) :
    progress.significantRun mode index (o :: os) =
      if o.lexeme.isSignificant then
        (progress.emit mode index o).1 ++
          (progress.emit mode index o).2.significantRun mode index os
      else (progress.emit mode index o).2.significantRun mode index os := rfl

theorem significantRun_of_isTrivia (mode : Mode) (index : LineIndex) (progress : Progress)
    {l : Lexeme} (h : l.shape.isTrivia = true) (start : Nat) (ahead : List Lexeme)
    (os : List Occurrence) :
    progress.significantRun mode index (⟨l, start, ahead⟩ :: os) =
      progress.significantRun mode index os := by
  obtain ⟨kind, hkind⟩ := Shape.exists_kinds_of_isTrivia h
  rw [significantRun_cons, emit_of_isTrivia mode index progress h hkind, Lexeme.isSignificant, h]
  rfl

theorem significantRun_of_significant (mode : Mode) (index : LineIndex) (progress : Progress)
    {o : Occurrence} (h : o.lexeme.shape.isTrivia = false) (os : List Occurrence) :
    progress.significantRun mode index (o :: os) =
      (progress.emit mode index o).1 ++
        (progress.emit mode index o).2.significantRun mode index os := by
  rw [significantRun_cons, Lexeme.isSignificant, h]
  rfl

/-- Nothing is ever wrong with trivia. -/
theorem diagnostics_significantRun (mode : Mode) (index : LineIndex) (progress : Progress)
    (os : List Occurrence) :
    (progress.significantRun mode index os).diagnostics =
      (progress.run mode index os).1.diagnostics := by
  induction os generalizing progress with
  | nil => rfl
  | cons o os ih =>
    cases h : o.lexeme.shape.isTrivia with
    | true =>
      obtain ⟨kind, hkind⟩ := Shape.exists_kinds_of_isTrivia h
      rw [significantRun_of_isTrivia mode index progress h,
        run_cons_of_isTrivia mode index progress h hkind, ih]
      rfl
    | false =>
      rw [significantRun_of_significant mode index progress h, run_cons,
        Emission.diagnostics_append, Emission.diagnostics_append, ih]

variable {i j : LineIndex} {s t : Nat} {p q : Progress}

/-- Runs through the same significant lexemes, up to mute texts, say the same and end in the
same context. -/
theorem run_sameSignificant {a b : List Lexeme} (h : Lexeme.SameSignificant a b)
    (hctx : p.context = q.context) :
    (p.significantRun .whole i (Occurrence.ofLexemes s a)).SaysSame
        (q.significantRun .whole j (Occurrence.ofLexemes t b)) ∧
      (p.run .whole i (Occurrence.ofLexemes s a)).2.context =
        (q.run .whole j (Occurrence.ofLexemes t b)).2.context := by
  induction h generalizing s t p q with
  | nil => exact ⟨⟨rfl, rfl⟩, hctx⟩
  | left hl _ ih =>
    obtain ⟨kind, hkind⟩ := Shape.exists_kinds_of_isTrivia hl
    rw [Occurrence.ofLexemes, significantRun_of_isTrivia .whole i p hl,
      run_cons_of_isTrivia .whole i p hl hkind]
    exact ih hctx
  | right hl _ ih =>
    obtain ⟨kind, hkind⟩ := Shape.exists_kinds_of_isTrivia hl
    rw [Occurrence.ofLexemes, significantRun_of_isTrivia .whole j q hl,
      run_cons_of_isTrivia .whole j q hl hkind]
    exact ih hctx
  | @both l l' hl hlike a b hrest ih =>
    have hl' : l'.shape.isTrivia = false := hlike.shape_eq ▸ hl
    rw [Occurrence.ofLexemes, Occurrence.ofLexemes, Occurrence.significant_ofLexemes,
      Occurrence.significant_ofLexemes, significantRun_of_significant .whole i p hl,
      significantRun_of_significant .whole j q hl', run_cons, run_cons]
    obtain ⟨hfirst, hnext⟩ := emit_like (i := i) (j := j) .whole
      ⟨l, s, a.filter (·.isSignificant)⟩ ⟨l', t, b.filter (·.isSignificant)⟩
      hlike hrest.forall₂ hctx
    obtain ⟨hlater, hlast⟩ := ih (s := s + l.length) (t := t + l'.length) hnext
    exact ⟨hfirst.append hlater, hlast⟩

end Progress

end JavaHighlight
