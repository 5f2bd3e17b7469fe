import JavaHighlight.Proofs.Lines.InStep
import JavaHighlight.Proofs.Meaning.Alike

/-!
# Reading at another place

The same lexemes are read at two places: in a text of their own, and from some offset of another
text on. If the line indexes of both tell the same lines apart (`LineIndex.Relocates`), the two
readings stay level (`Progress.Level`), and what one emits is what the other does, moved to its
place (`Progress.run_relocate`). Nothing that is read depends on what lies in front of it.
-/

namespace JavaHighlight

/-! ## Moving what is emitted -/

/-- A token as it is found `start` bytes further on, where `move` tells its position. -/
def Token.relocate (start : Nat) (move : Position → Position) (token : Token) : Token :=
  { token with span := token.span.shift start, position := move token.position }

/-- What is emitted, as it is emitted `start` bytes further on. -/
def Emission.relocate (start : Nat) (move : Position → Position) (emission : Emission) :
    Emission :=
  ⟨emission.tokens.map (Token.relocate start move),
    emission.diagnostics.map (Line.liftDiagnostic start)⟩

theorem Emission.relocate_append (start : Nat) (move : Position → Position) (a b : Emission) :
    (a ++ b).relocate start move = a.relocate start move ++ b.relocate start move := by
  show Emission.mk _ _ = Emission.mk _ _
  rw [Emission.tokens_append, Emission.diagnostics_append, List.map_append, List.map_append]
  rfl

namespace Occurrence

/-- The same lexeme is found `start` bytes further on, and what is ahead gives the same answers. -/
structure Relocated (start : Nat) (p o : Occurrence) : Prop where
  lexeme_eq : p.lexeme = o.lexeme
  start_eq : p.start = start + o.start
  answers : Lookahead.SameAnswers p.ahead o.ahead

/-- Consecutive lexemes are found further on, in front of others that look the same. -/
theorem relocated_before {a b : List Lexeme} (h : List.Forall₂ Lexeme.LooksLike a b)
    (start first : Nat) (ls : List Lexeme) :
    List.Forall₂ (Relocated start) (before a (start + first) ls) (before b first ls) := by
  induction ls generalizing first with
  | nil => exact .nil
  | cons l ls ih =>
    have hahead : List.Forall₂ Lexeme.LooksLike (ls.filter (·.isSignificant) ++ a)
        (ls.filter (·.isSignificant) ++ b) :=
      List.rel_append (List.forall₂_same.mpr fun l _ => .refl l) h
    have hrest := ih (first + l.length)
    rw [← Nat.add_assoc] at hrest
    exact .cons ⟨rfl, rfl, Lookahead.sameAnswers_of_looksLike hahead⟩ hrest

theorem within_of_mem_before {behind ls : List Lexeme} {first : Nat} {o : Occurrence}
    (hls : ∀ l ∈ ls, l.InText ∧ 0 < l.length) (h : o ∈ before behind first ls) :
    o.lexeme.InText ∧ 0 < o.lexeme.length ∧ o.stop ≤ first + Lexeme.totalLength ls := by
  induction ls generalizing first with
  | nil => cases h
  | cons l ls ih =>
    rw [List.forall_mem_cons] at hls
    rw [Lexeme.totalLength_cons]
    rw [before, List.mem_cons] at h
    rcases h with rfl | h
    · refine ⟨hls.1.1, hls.1.2, ?_⟩
      unfold stop
      dsimp only
      omega
    · obtain ⟨hl, hpos, hstop⟩ := ih hls.2 h
      exact ⟨hl, hpos, by omega⟩

end Occurrence

/-! ## Readings that stay level -/

/-- The `size` bytes of `whole` from `start` on lie as those of `part`: `move` turns the positions
of these into those of the others, and the same bytes are on one line. -/
structure LineIndex.Relocates (whole part : LineIndex) (start size : Nat)
    (move : Position → Position) : Prop where
  position : ∀ o < size, whole.position (start + o) = move (part.position o)
  line_eq_iff : ∀ o < size, ∀ p < size,
    (whole.position (start + o)).line = (whole.position (start + p)).line ↔
      (part.position o).line = (part.position p).line

/-- Two readings have the same context, and at every place they agree on whether it is on the line
of the last significant token. -/
structure Progress.Level (iw ip : LineIndex) (start size : Nat) (whole part : Progress) :
    Prop where
  context : whole.context = part.context
  lastLine : ∀ o < size,
    (iw.position (start + o)).line = whole.lastLine ↔ (ip.position o).line = part.lastLine

namespace Progress

variable {iw ip : LineIndex} {start size : Nat} {move : Position → Position}
  {whole part : Progress}

theorem emitPiece_relocate (hindex : iw.Relocates ip start size move)
    (h : Level iw ip start size whole part) {o : Nat} (ho : o < size) (piece : Piece) :
    (whole.emitPiece iw (start + o) piece).1 =
        (part.emitPiece ip o piece).1.relocate start move ∧
      Level iw ip start size (whole.emitPiece iw (start + o) piece).2
        (part.emitPiece ip o piece).2 := by
  have hfirst : decide ((iw.position (start + o)).line ≠ whole.lastLine) =
      decide ((ip.position o).line ≠ part.lastLine) :=
    decide_eq_decide.mpr (not_congr (h.lastLine o ho))
  unfold emitPiece
  dsimp only
  rw [hfirst, h.context, span_shift]
  refine ⟨?_, rfl, fun p hp => ?_⟩
  · rw [hindex.position o ho]
    unfold Emission.relocate
    rw [List.map_map]
    rfl
  · dsimp only
    split
    · exact hindex.line_eq_iff p hp o ho
    · exact h.lastLine p hp

theorem emitPieces_relocate (hindex : iw.Relocates ip start size move)
    (h : Level iw ip start size whole part) {pieces : List Piece}
    (hpos : ∀ piece ∈ pieces, 0 < piece.length) {o : Nat}
    (ho : o + Piece.totalLength pieces ≤ size) :
    (whole.emitPieces iw (start + o) pieces).1 =
        (part.emitPieces ip o pieces).1.relocate start move ∧
      Level iw ip start size (whole.emitPieces iw (start + o) pieces).2
        (part.emitPieces ip o pieces).2 := by
  induction pieces generalizing whole part o with
  | nil => exact ⟨rfl, h⟩
  | cons piece pieces ih =>
    rw [List.forall_mem_cons] at hpos
    rw [Piece.totalLength_cons] at ho
    obtain ⟨hfirst, hnext⟩ := emitPiece_relocate hindex h (o := o) (by omega) piece
    obtain ⟨hrest, hlast⟩ := ih hnext hpos.2 (o := o + piece.length) (by omega)
    rw [← Nat.add_assoc] at hrest hlast
    refine ⟨?_, hlast⟩
    rw [emitPieces_cons, emitPieces_cons]
    dsimp only
    rw [Emission.relocate_append, hfirst, hrest]

/-- Lexemes of one length at the same place that have the same reading keep the readings level. -/
theorem emit_relocate (hindex : iw.Relocates ip start size move)
    (h : Level iw ip start size whole part) (mode : Mode) {p o : Occurrence}
    (hstart : p.start = start + o.start) (hlength : p.lexeme.length = o.lexeme.length)
    (hreading : Reading.ofLexeme mode part.context p.lexeme p.ahead =
      Reading.ofLexeme mode part.context o.lexeme o.ahead)
    (hl : o.lexeme.InText) (hpos : 0 < o.lexeme.length) (hstop : o.stop ≤ size) :
    (whole.emit mode iw p).1 = (part.emit mode ip o).1.relocate start move ∧
      Level iw ip start size (whole.emit mode iw p).2 (part.emit mode ip o).2 := by
  obtain ⟨hpieces, hsum⟩ := Reading.length_pieces hl hpos mode part.context o.ahead
  obtain ⟨hemission, hnext⟩ := emitPieces_relocate hindex h hpieces (o := o.start)
    (by rw [hsum]; exact hstop)
  unfold emit
  dsimp only
  rw [h.context, hreading, hstart, hlength, span_shift, Emission.relocate_append, hemission]
  refine ⟨?_, hnext⟩
  congr 1
  unfold Emission.relocate
  rw [List.map_map]
  rfl

/-- **A run is the same at another place**, and what it emits is moved there. -/
theorem run_relocate (hindex : iw.Relocates ip start size move)
    (h : Level iw ip start size whole part) (mode : Mode) {ps os : List Occurrence}
    (hrelocated : List.Forall₂ (Occurrence.Relocated start) ps os)
    (hos : ∀ o ∈ os, o.lexeme.InText ∧ 0 < o.lexeme.length ∧ o.stop ≤ size) :
    (whole.run mode iw ps).1 = (part.run mode ip os).1.relocate start move ∧
      Level iw ip start size (whole.run mode iw ps).2 (part.run mode ip os).2 := by
  induction hrelocated generalizing whole part with
  | nil => exact ⟨rfl, h⟩
  | @cons p o ps os hp _ ih =>
    rw [List.forall_mem_cons] at hos
    obtain ⟨⟨hl, hpos, hstop⟩, hos⟩ := hos
    have hreading : Reading.ofLexeme mode part.context p.lexeme p.ahead =
        Reading.ofLexeme mode part.context o.lexeme o.ahead := by
      rw [hp.lexeme_eq, Reading.ofLexeme_congr_answers hp.answers]
    obtain ⟨hfirst, hnext⟩ := emit_relocate hindex h mode hp.start_eq
      (congrArg Lexeme.length hp.lexeme_eq) hreading hl hpos hstop
    obtain ⟨hrest, hlast⟩ := ih hnext hos
    refine ⟨?_, hlast⟩
    rw [run_cons, run_cons]
    dsimp only
    rw [Emission.relocate_append, hfirst, hrest]

end Progress

end JavaHighlight
