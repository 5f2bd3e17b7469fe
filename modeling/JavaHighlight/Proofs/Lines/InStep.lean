import JavaHighlight.Proofs.Lines.Lookahead
import JavaHighlight.Proofs.Lines.Spans

/-!
# A line in step with its source

A line that is read by itself and the same line as a part of its source are read in step
(`Progress.InStep`): the contexts are the same, and so is which token comes first on the line.
Each lexeme that means the same in both keeps them in step (`Progress.emit_inStep`), and so
does a run whose lookaheads stay on the line (`Progress.run_inStep`).
-/

namespace JavaHighlight

/-- The line with the given number starts at `start` and has `size` bytes. `whole` is the index of
the source and `line` that of the line alone. -/
structure LineIndex.Covers (whole line : LineIndex) (start number size : Nat) : Prop where
  whole_position : ∀ o < size, whole.position (start + o) = ⟨number, o + 1⟩
  line_position : ∀ o < size, line.position o = ⟨1, o + 1⟩

/-- What a line emits, as it is emitted in the source. -/
def Emission.lift (start number : Nat) (emission : Emission) : Emission :=
  ⟨emission.tokens.map (Line.lift start number),
    emission.diagnostics.map (Line.liftDiagnostic start)⟩

@[simp] theorem Emission.lift_append (start number : Nat) (a b : Emission) :
    (a ++ b).lift start number = a.lift start number ++ b.lift start number := by
  show Emission.mk _ _ = Emission.mk _ _
  rw [Emission.tokens_append, Emission.diagnostics_append, List.map_append, List.map_append]
  rfl

theorem Emission.append_empty (e : Emission) : e ++ Emission.empty = e := by
  show Emission.mk _ _ = e
  rw [Emission.tokens_empty, Emission.diagnostics_empty, List.append_nil, List.append_nil]

theorem Emission.append_assoc (a b c : Emission) : a ++ b ++ c = a ++ (b ++ c) := by
  show Emission.mk _ _ = Emission.mk _ _
  simp only [Emission.tokens_append, Emission.diagnostics_append, List.append_assoc]

/-! ## The lengths of pieces -/

namespace Piece

def totalLength (pieces : List Piece) : Nat :=
  pieces.foldr (fun piece n => piece.length + n) 0

theorem totalLength_cons (piece : Piece) (pieces : List Piece) :
    totalLength (piece :: pieces) = piece.length + totalLength pieces := rfl

theorem totalLength_replicate_append (n : Nat) (piece : Piece) (pieces : List Piece) :
    totalLength (List.replicate n piece ++ pieces) = n * piece.length + totalLength pieces := by
  induction n with
  | zero => exact (Nat.zero_mul piece.length ▸ Nat.zero_add _).symm
  | succ n ih =>
    rw [List.replicate_succ, List.cons_append, totalLength_cons, ih, Nat.succ_mul]
    omega

end Piece

namespace Reading

variable {l : Lexeme}

theorem pieces_ofClosingAngles (ctx : Context) (l : Lexeme) :
    ((ofClosingAngles ctx l).pieces = [.ofLexeme l .operator]) ∨
      ∃ closing, 0 < closing ∧ closing ≤ l.shape.closingAngles ∧
        (ofClosingAngles ctx l).pieces =
          List.replicate closing (Piece.closingAngle (1 < l.shape.closingAngles)) ++
            if closing < l.shape.closingAngles then
              [Piece.angleOperator (l.shape.closingAngles - closing)]
            else [] := by
  by_cases hclosing : min l.shape.closingAngles ctx.openAngles = 0
  · left
    unfold ofClosingAngles
    dsimp only
    rw [if_pos hclosing]
    rfl
  · refine .inr ⟨_, Nat.pos_of_ne_zero hclosing, Nat.min_le_left _ _, ?_⟩
    unfold ofClosingAngles
    dsimp only
    rw [if_neg hclosing]

theorem length_pieces (hl : l.InText) (hpos : 0 < l.length) (mode : Mode) (ctx : Context)
    (ahead : List Lexeme) :
    (∀ piece ∈ (ofLexeme mode ctx l ahead).pieces, 0 < piece.length) ∧
      Piece.totalLength (ofLexeme mode ctx l ahead).pieces = l.length := by
  by_cases hangles : l.shape.closingAngles = 0
  · obtain ⟨kind, -, flags, opensLambda, hpieces⟩ :=
      isOnePiece_ofLexeme hangles hl.not_end mode ctx ahead
    rw [hpieces]
    exact ⟨List.forall_mem_singleton.mpr hpos, Nat.add_zero _⟩
  · rw [ofLexeme_of_closingAngles hangles]
    rcases pieces_ofClosingAngles ctx l with hpieces | ⟨closing, hclosing, hle, hpieces⟩
    · rw [hpieces]
      exact ⟨List.forall_mem_singleton.mpr hpos, Nat.add_zero _⟩
    · rw [hpieces, hl.angles hangles]
      constructor
      · intro piece hpiece
        rcases List.mem_append.mp hpiece with hpiece | hpiece
        · rw [List.eq_of_mem_replicate hpiece]
          exact Nat.one_pos
        · split at hpiece
          · rw [List.mem_singleton.mp hpiece]
            exact Nat.sub_pos_of_lt (by assumption)
          · cases hpiece
      · rw [Piece.totalLength_replicate_append]
        show closing * 1 + _ = _
        split
        · show closing * 1 + (l.shape.closingAngles - closing + 0) = _
          omega
        · show closing * 1 + 0 = _
          omega

end Reading

/-! ## Progress in step -/

/-- The reading of a source and the reading of the line with the given number have come equally
far. -/
structure Progress.InStep (number : Nat) (whole line : Progress) : Prop where
  context : whole.context = line.context
  lastLine : (whole.lastLine < number ∧ line.lastLine = 0) ∨
    (whole.lastLine = number ∧ line.lastLine = 1)

namespace Progress

variable {iw il : LineIndex} {start number size : Nat} {whole line : Progress}

theorem emitPieces_cons (index : LineIndex) (start : Nat) (piece : Piece) (pieces : List Piece)
    (progress : Progress) :
    progress.emitPieces index start (piece :: pieces) =
      let first := progress.emitPiece index start piece
      let rest := first.2.emitPieces index (start + piece.length) pieces
      (first.1 ++ rest.1, rest.2) := rfl

theorem run_cons (mode : Mode) (index : LineIndex) (progress : Progress) (o : Occurrence)
    (os : List Occurrence) :
    progress.run mode index (o :: os) =
      let first := progress.emit mode index o
      let rest := first.2.run mode index os
      (first.1 ++ rest.1, rest.2) := rfl

theorem span_shift (start o length : Nat) :
    (⟨start + o, start + o + length⟩ : Span) = Span.shift ⟨o, o + length⟩ start := by
  show _ = Span.mk (o + start) (o + length + start)
  rw [Nat.add_comm start o, Nat.add_right_comm]

theorem emitPiece_inStep (hcovers : iw.Covers il start number size)
    (h : InStep number whole line) {o : Nat} (ho : o < size) (piece : Piece) :
    (whole.emitPiece iw (start + o) piece).1 =
        (line.emitPiece il o piece).1.lift start number ∧
      InStep number (whole.emitPiece iw (start + o) piece).2 (line.emitPiece il o piece).2 := by
  have hfirst : decide (number ≠ whole.lastLine) = decide (1 ≠ line.lastLine) := by
    rcases h.lastLine with ⟨hlt, hzero⟩ | ⟨heq, hone⟩
    · rw [decide_eq_true (by omega), decide_eq_true (by omega)]
    · rw [decide_eq_false (by omega), decide_eq_false (by omega)]
  unfold emitPiece
  dsimp only
  rw [hcovers.whole_position o ho, hcovers.line_position o ho, h.context, span_shift]
  dsimp only
  rw [hfirst]
  refine ⟨?_, rfl, ?_⟩
  · unfold Emission.lift
    rw [List.map_map]
    rfl
  · dsimp only
    split
    · exact .inr ⟨rfl, rfl⟩
    · exact h.lastLine

theorem emitPieces_inStep (hcovers : iw.Covers il start number size)
    (h : InStep number whole line) {pieces : List Piece}
    (hpos : ∀ piece ∈ pieces, 0 < piece.length) {o : Nat}
    (ho : o + Piece.totalLength pieces ≤ size) :
    (whole.emitPieces iw (start + o) pieces).1 =
        (line.emitPieces il o pieces).1.lift start number ∧
      InStep number (whole.emitPieces iw (start + o) pieces).2
        (line.emitPieces il o pieces).2 := by
  induction pieces generalizing whole line o with
  | nil => exact ⟨rfl, h⟩
  | cons piece pieces ih =>
    rw [List.forall_mem_cons] at hpos
    rw [Piece.totalLength_cons] at ho
    obtain ⟨hfirst, hnext⟩ := emitPiece_inStep hcovers h (o := o) (by omega) piece
    obtain ⟨hrest, hlast⟩ := ih hnext hpos.2 (o := o + piece.length) (by omega)
    rw [← Nat.add_assoc] at hrest hlast
    refine ⟨?_, hlast⟩
    rw [emitPieces_cons, emitPieces_cons]
    dsimp only
    rw [Emission.lift_append, hfirst, hrest]

/-- Lexemes with the same reading and the same place keep the readings in step. -/
theorem emit_inStep (hcovers : iw.Covers il start number size) (h : InStep number whole line)
    {p o : Occurrence} (hstart : p.start = start + o.start)
    (hlength : p.lexeme.length = o.lexeme.length)
    (hreading : Reading.ofLexeme .line line.context o.lexeme o.ahead =
      Reading.ofLexeme .whole line.context p.lexeme p.ahead)
    (hl : o.lexeme.InText) (hpos : 0 < o.lexeme.length) (hstop : o.stop ≤ size) :
    (whole.emit .whole iw p).1 = (line.emit .line il o).1.lift start number ∧
      InStep number (whole.emit .whole iw p).2 (line.emit .line il o).2 := by
  obtain ⟨hpieces, hsum⟩ := Reading.length_pieces hl hpos .line line.context o.ahead
  obtain ⟨hemission, hnext⟩ := emitPieces_inStep hcovers h hpieces (o := o.start)
    (by rw [hsum]; exact hstop)
  unfold emit
  dsimp only
  rw [h.context, ← hreading, hstart, hlength, span_shift, Emission.lift_append, hemission]
  refine ⟨?_, hnext⟩
  congr 1
  unfold Emission.lift
  rw [List.map_map]
  rfl

end Progress

/-! ## Runs in step -/

/-- The occurrences of consecutive lexemes that stand in front of others, of which only the
significant ones are given. -/
def Occurrence.before (behind : List Lexeme) (start : Nat) : List Lexeme → List Occurrence
  | [] => []
  | l :: ls =>
    ⟨l, start, ls.filter (·.isSignificant) ++ behind⟩ :: before behind (start + l.length) ls

namespace Occurrence

theorem before_nil (start : Nat) (ls : List Lexeme) : before [] start ls = ofLexemes start ls := by
  induction ls generalizing start with
  | nil => rfl
  | cons l ls ih => rw [before, ofLexemes, ih, significant_ofLexemes, List.append_nil]

theorem before_append (behind : List Lexeme) (start : Nat) (a b : List Lexeme) :
    before behind start (a ++ b) =
      before (b.filter (·.isSignificant) ++ behind) start a ++
        before behind (start + Lexeme.totalLength a) b := by
  induction a generalizing start with
  | nil => rfl
  | cons l a ih =>
    rw [List.cons_append, before, before, ih, List.filter_append, List.append_assoc,
      Lexeme.totalLength_cons, Nat.add_assoc, List.cons_append]

theorem ofLexemes_append (start : Nat) (a b : List Lexeme) :
    ofLexemes start (a ++ b) =
      before (b.filter (·.isSignificant)) start a ++
        ofLexemes (start + Lexeme.totalLength a) b := by
  rw [← before_nil, before_append, List.append_nil, before_nil]

theorem before_append_trivia {l : Lexeme} (h : l.shape.isTrivia = true) (behind : List Lexeme)
    (start : Nat) (a b : List Lexeme) :
    before behind start (a ++ l :: b) =
      before (b.filter (·.isSignificant) ++ behind) start a ++
        ⟨l, start + Lexeme.totalLength a, b.filter (·.isSignificant) ++ behind⟩ ::
          before behind (start + Lexeme.totalLength a + l.length) b := by
  rw [before_append, Lexeme.filter_isSignificant_cons, Lexeme.isTrivia, if_pos h]
  rfl

end Occurrence

namespace Progress

variable {iw il : LineIndex} {start number size : Nat} {whole line : Progress}

theorem run_append (mode : Mode) (index : LineIndex) (progress : Progress)
    (a b : List Occurrence) :
    progress.run mode index (a ++ b) =
      ((progress.run mode index a).1 ++ ((progress.run mode index a).2.run mode index b).1,
        ((progress.run mode index a).2.run mode index b).2) := by
  induction a generalizing progress with
  | nil => rfl
  | cons o a ih =>
    rw [List.cons_append, run_cons, run_cons]
    dsimp only
    rw [ih, Emission.append_assoc]

/-- The lexemes ahead agree on a line that ends with a semicolon or a brace, or in front of the
same lexemes. -/
theorem agree_ahead {l : Lexeme} {ls a b : List Lexeme}
    (hend : a = b ∨
      ∀ x ∈ ((l :: ls).filter (·.isSignificant)).getLast?, Lookahead.stopsLambda x = true)
    (htrivia : l.shape.isTrivia = false) (hstops : Lookahead.stopsLambda l = false) :
    Lookahead.Agree (ls.filter (·.isSignificant) ++ b) (ls.filter (·.isSignificant) ++ a) := by
  rcases hend with rfl | hend
  · exact .refl _
  have hl : l.isSignificant = true := by
    rw [Lexeme.isSignificant, htrivia]
    rfl
  rw [List.filter_cons, if_pos hl] at hend
  by_cases hne : ls.filter (·.isSignificant) = []
  · rw [hne, List.getLast?_singleton] at hend
    rw [hend l rfl] at hstops
    cases hstops
  · refine Lookahead.agree_append hne (fun x hx => hend x ?_) _ _
    rw [List.getLast?_cons]
    obtain ⟨y, ys, hys⟩ := List.exists_cons_of_ne_nil hne
    rw [hys, List.getLast?_cons] at hx ⊢
    exact hx

theorem stops_tail {l : Lexeme} {ls : List Lexeme}
    (h : ∀ x ∈ ((l :: ls).filter (·.isSignificant)).getLast?, Lookahead.stopsLambda x = true) :
    ∀ x ∈ (ls.filter (·.isSignificant)).getLast?, Lookahead.stopsLambda x = true := by
  intro x hx
  refine h x ?_
  rw [List.filter_cons]
  split
  · rw [List.getLast?_cons, hx]
    rfl
  · exact hx

/-- **A run stays in step** if all of its lexemes have their ends and what is ahead agrees. -/
theorem run_inStep (hcovers : iw.Covers il start number size) (h : InStep number whole line)
    {ls a b : List Lexeme} (hclosed : ∀ l ∈ ls, l.shape.isOpen = false)
    (hls : ∀ l ∈ ls, l.InText ∧ 0 < l.length)
    (hend : a = b ∨
      ∀ l ∈ (ls.filter (·.isSignificant)).getLast?, Lookahead.stopsLambda l = true)
    {o : Nat} (ho : o + Lexeme.totalLength ls ≤ size) :
    (whole.run .whole iw (Occurrence.before a (start + o) ls)).1 =
        (line.run .line il (Occurrence.before b o ls)).1.lift start number ∧
      InStep number (whole.run .whole iw (Occurrence.before a (start + o) ls)).2
        (line.run .line il (Occurrence.before b o ls)).2 := by
  induction ls generalizing whole line o with
  | nil => exact ⟨rfl, h⟩
  | cons l ls ih =>
    rw [Lexeme.totalLength_cons] at ho
    rw [List.forall_mem_cons] at hclosed hls
    have hreading := Reading.ofLexeme_congr hclosed.1 (agree_ahead hend) line.context
    have hstop : o + l.length ≤ size := by omega
    obtain ⟨hfirst, hnext⟩ := emit_inStep hcovers h (p := ⟨l, start + o, _⟩) (o := ⟨l, o, _⟩) rfl
      rfl hreading hls.1.1 hls.1.2 hstop
    obtain ⟨hrest, hlast⟩ := ih hnext hclosed.2 hls.2 (hend.imp_right stops_tail)
      (o := o + l.length) (by omega)
    rw [← Nat.add_assoc] at hrest hlast
    refine ⟨?_, hlast⟩
    rw [Occurrence.before, Occurrence.before, run_cons, run_cons]
    dsimp only
    rw [Emission.lift_append, hfirst, hrest]

end Progress

end JavaHighlight
