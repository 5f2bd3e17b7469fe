import JavaHighlight.Proofs.Lines.Diagnostics
import JavaHighlight.Proofs.LineStarts.Marks
import JavaHighlight.Proofs.Meaning.Outline

/-!
# Code at the starts of lines

Whether the tokens of a lexeme are trivia is told by its shape (`Shape.isTrivia_eq_not_isCode`). The
pieces of a run of angle brackets stand on one line, so that the marked tokens of a run start
where its first lexemes on each line do that are code (`Progress.markedStarts_ofText`).
-/

namespace JavaHighlight

/-! ## Lexemes that are code -/

/-- Lexemes that are neither blanks nor comments, be it that they lack their end. -/
def Shape.isCode (shape : Shape) : Bool :=
  !shape.isTrivia &&
    shape ∉ [Shape.unterminatedBlockComment, .unterminatedNativeBlock, .endOfInput]

theorem Shape.isTrivia_eq_not_isCode {shape : Shape} {kind : TokenKind}
    (hkind : kind ∈ shape.kinds) : kind.isTrivia = !shape.isCode := by
  cases shape with
  | symbol s =>
    have key : ∀ s ∈ Symbol.all, ∀ kind ∈ s.kinds, kind.isTrivia = false := by decide
    exact key s s.mem_all kind hkind
  | integer radix =>
    cases radix <;>
      exact (by decide : ∀ kind ∈ Shape.kinds (.integer _), kind.isTrivia = false) kind hkind
  | _ => revert kind; decide

namespace Lexeme

/-- Where the lexemes start that are code, if the first of all lexemes starts at `start`. -/
def codeStarts (start : Nat) : List Lexeme → List Nat
  | [] => []
  | l :: ls => (if l.shape.isCode then [start] else []) ++ codeStarts (start + l.length) ls

theorem codeStarts_cons (start : Nat) (l : Lexeme) (ls : List Lexeme) :
    codeStarts start (l :: ls) =
      (if l.shape.isCode then [start] else []) ++ codeStarts (start + l.length) ls := rfl

theorem codeStarts_append (start : Nat) (a b : List Lexeme) :
    codeStarts start (a ++ b) = codeStarts start a ++ codeStarts (start + totalLength a) b := by
  induction a generalizing start with
  | nil => rfl
  | cons l a ih =>
    rw [List.cons_append, codeStarts_cons, codeStarts_cons, ih, totalLength_cons, Nat.add_assoc,
      List.append_assoc]

theorem codeStarts_add (start offset : Nat) (ls : List Lexeme) :
    codeStarts (start + offset) ls = (codeStarts start ls).map (· + offset) := by
  induction ls generalizing start with
  | nil => rfl
  | cons l ls ih =>
    rw [codeStarts_cons, codeStarts_cons, Nat.add_right_comm, ih, List.map_append]
    split <;> rfl

theorem exists_of_mem_codeStarts {start p : Nat} {ls : List Lexeme} (h : p ∈ codeStarts start ls) :
    ∃ o ∈ Occurrence.ofLexemes start ls, o.start = p := by
  induction ls generalizing start with
  | nil => cases h
  | cons l ls ih =>
    rw [codeStarts_cons, List.mem_append] at h
    rcases h with h | h
    · split at h
      · exact ⟨_, List.mem_cons_self, (List.mem_singleton.mp h).symm⟩
      · cases h
    · obtain ⟨o, ho, hp⟩ := ih h
      exact ⟨o, List.mem_cons_of_mem _ ho, hp⟩

end Lexeme

/-! ## Runs of angle brackets -/

namespace LineIndex

open Text (byteSize bytes endsLineAt)

/-- No line ends between angle brackets. -/
theorem line_of_angles {before after : List Char} {n k : Nat} (hk : k < n) :
    let index := ofText (before ++ (List.replicate n '>' ++ after))
    index.line (byteSize before + k) = index.line (byteSize before) := by
  intro index
  have hsize : byteSize (before ++ (List.replicate n '>' ++ after)) =
      byteSize before + (n + byteSize after) := by
    rw [Text.byteSize_append, Text.byteSize_append, Reading.byteSize_replicate_angle]
  have hangles : bytes (List.replicate n '>') = List.replicate n 62 := by
    have hencode : String.utf8EncodeChar '>' = [62] := by decide
    rw [bytes, List.flatMap_replicate, hencode, List.flatten_replicate_singleton]
  have hnone : ((List.range k).map (byteSize before + ·)).countP
      (endsLineAt (bytes (before ++ (List.replicate n '>' ++ after)))) = 0 := by
    rw [List.countP_eq_zero]
    intro p hp
    obtain ⟨i, hi, rfl⟩ := List.mem_map.mp hp
    have hi' : i < n := Nat.lt_trans (List.mem_range.mp hi) hk
    rw [Text.bytes_append, Text.bytes_append, hangles, ← Text.length_bytes, Text.endsLineAt_append,
      endsLineAt, List.getElem?_append_left (by rwa [List.length_replicate]),
      List.getElem?_replicate_of_lt hi']
    simp [Reader.isByte]
  unfold line
  rw [line_position (by omega), line_position (by omega), List.range_add, List.countP_append,
    hnone, Nat.add_zero]

end LineIndex

namespace Occurrence

/-- All angle brackets of a run stand on the line on which the run starts. -/
def OnOneLine (index : LineIndex) (o : Occurrence) : Prop :=
  ∀ k < o.lexeme.shape.closingAngles, index.line (o.start + k) = index.line o.start

theorem StandsIn.onOneLine {cs : List Char} {o : Occurrence} (h : o.StandsIn cs) :
    o.OnOneLine (LineIndex.ofText cs) := by
  obtain ⟨⟨ds, hds⟩, before, after, rfl, hstart⟩ := h
  intro k hk
  cases hshape : o.lexeme.shape with
  | symbol s =>
    rw [hshape] at hk
    have htext : o.lexeme.text = List.replicate s.closingAngles '>' := by
      rw [Lexeme.text_of_symbol hds hshape,
        Reading.spelling_of_closingAngles (Nat.ne_zero_of_lt hk)]
    rw [htext, hstart]
    exact LineIndex.line_of_angles hk
  | _ =>
    rw [hshape] at hk
    exact absurd hk (Nat.not_lt_zero k)

end Occurrence

namespace Progress

variable {index : LineIndex}

/-- Code starts with its first token, and all its tokens start on one line. -/
theorem starts_emit {o : Occurrence} (hl : o.lexeme.InText) (hpos : 0 < o.lexeme.length)
    (hline : o.OnOneLine index) (mode : Mode) (p : Progress) :
    ∃ others, (p.emit mode index o).1.tokens.map (·.span.start) = o.start :: others ∧
      ∀ q ∈ others, index.line q = index.line o.start := by
  have htile := tile_emit hl hpos mode index p
  have hlength := congrArg List.length (map_kind_emit mode index p o)
  rw [List.length_map, List.length_map] at hlength
  cases htokens : (p.emit mode index o).1.tokens with
  | nil =>
    rw [htokens] at htile
    have hstop : o.start = o.start + o.lexeme.length := htile
    omega
  | cons first others =>
    rw [htokens] at htile hlength
    obtain ⟨hstart, hlt, hrest⟩ := htile
    refine ⟨others.map (·.span.start), by rw [List.map_cons, hstart], fun q hq => ?_⟩
    obtain ⟨t, ht, rfl⟩ := List.mem_map.mp hq
    by_cases hangles : o.lexeme.shape.closingAngles = 0
    · obtain ⟨kind, -, flags, opensLambda, hpieces⟩ :=
        Reading.isOnePiece_ofLexeme hangles hl.not_end mode p.context o.ahead
      rw [hpieces, List.length_cons, List.length_singleton, Nat.add_eq_right,
        List.length_eq_zero_iff] at hlength
      rw [hlength] at ht
      cases ht
    · have hspan := hrest.of_mem.2 t.span (List.mem_map_of_mem ht)
      have hstop : o.stop = o.start + o.lexeme.shape.closingAngles :=
        congrArg (o.start + ·) (hl.angles hangles)
      obtain ⟨k, hk⟩ := Nat.exists_eq_add_of_le (show o.start ≤ t.span.start by omega)
      rw [hk]
      exact hline k (by omega)

theorem isTrivia_emit {o : Occurrence} {mode : Mode} {p : Progress} :
    ∀ t ∈ (p.emit mode index o).1.tokens, t.isTrivia = !o.lexeme.shape.isCode := by
  intro t ht
  refine Shape.isTrivia_eq_not_isCode ?_
  have hmem := List.mem_map_of_mem (f := Token.kind) ht
  rw [map_kind_emit] at hmem
  obtain ⟨piece, hpiece, hkind⟩ := List.mem_map.mp hmem
  exact hkind ▸ Reading.kind_mem_kinds hpiece

/-- The first significant tokens of lines start where the first code of lines does. -/
theorem firstOnLines_significantStarts {ls : List Lexeme} {start : Nat}
    (hls : ∀ l ∈ ls, l.InText ∧ 0 < l.length)
    (hlines : ∀ o ∈ Occurrence.ofLexemes start ls, o.OnOneLine index) (mode : Mode)
    (p : Progress) (last : Nat) :
    index.firstOnLines last (Token.significantStarts
        (p.run mode index (Occurrence.ofLexemes start ls)).1.tokens) =
      index.firstOnLines last (Lexeme.codeStarts start ls) := by
  induction ls generalizing start p last with
  | nil => rfl
  | cons l ls ih =>
    rw [List.forall_mem_cons] at hls
    rw [Occurrence.ofLexemes, List.forall_mem_cons] at hlines
    rw [Occurrence.ofLexemes, run_cons, Emission.tokens_append, Token.significantStarts_append,
      Lexeme.codeStarts_cons]
    let o : Occurrence :=
      ⟨l, start, Occurrence.significant (Occurrence.ofLexemes (start + l.length) ls)⟩
    have htrivia : ∀ t ∈ (p.emit mode index o).1.tokens, t.isTrivia = !l.shape.isCode :=
      isTrivia_emit
    cases hcode : l.shape.isCode with
    | false =>
      rw [hcode] at htrivia
      rw [Token.significantStarts_of_isTrivia htrivia]
      exact ih hls.2 hlines.2 _ last
    | true =>
      rw [hcode] at htrivia
      obtain ⟨others, hstarts, hothers⟩ := starts_emit (o := o) hls.1.1 hls.1.2 hlines.1 mode p
      rw [Token.significantStarts_of_not_isTrivia htrivia, hstarts]
      show index.firstOnLines last (start :: (others ++ _)) = index.firstOnLines last (start :: _)
      rw [LineIndex.firstOnLines_cons, LineIndex.firstOnLines_cons,
        LineIndex.firstOnLines_append_of_last hothers]
      exact congrArg _ (ih hls.2 hlines.2 _ _)

/-- **The marked tokens of a run** start where the first code of lines does. -/
theorem markedStarts_ofText (front rest : List Char) (mode : Mode) (p : Progress) :
    let index := LineIndex.ofText (front ++ rest)
    let start := Text.byteSize front
    Token.markedStarts
        (p.run mode index (Occurrence.ofLexemes start (Lexeme.ofText rest))).1.tokens =
      index.firstOnLines p.lastLine (Lexeme.codeStarts start (Lexeme.ofText rest)) := by
  intro index start
  rw [markedStarts_run]
  exact firstOnLines_significantStarts
    (fun l hl => ⟨Lexeme.inText_of_mem_ofText hl, Lexeme.length_pos_of_mem_ofText hl⟩)
    (fun o ho => (Occurrence.standsIn_of_mem ho).onOneLine) mode p p.lastLine

end Progress

/-! ## The marks of a source -/

namespace TokenStream

variable {source : String} {offset : Nat} {stoppable : Bool}

theorem position_of_mem_drain_openAt :
    ∀ t ∈ ((openAt source offset stoppable).drain false).tokens,
      t.position = (LineIndex.ofText source.toList).position t.span.start ∧
        t.span.start ≤ Text.byteSize source.toList := by
  intro t ht
  have hspan := (tile_drain_openAt source offset stoppable).of_mem.2 t.span
    (List.mem_map_of_mem ht)
  rw [drain_openAt] at ht
  refine ⟨Line.position_of_mem_run ht, ?_⟩
  rw [Text.byteSize_toList]
  omega

theorem pairwise_line_drain_openAt :
    ((openAt source offset stoppable).drain false).tokens.Pairwise fun a b =>
      a.position.line ≤ b.position.line := by
  have hpairwise := List.pairwise_map.mp (tile_drain_openAt source offset stoppable).pairwise
  refine hpairwise.imp_of_mem fun {a b} ha hb hspans => ?_
  obtain ⟨hpositionA, -⟩ := position_of_mem_drain_openAt a ha
  obtain ⟨hpositionB, hle⟩ := position_of_mem_drain_openAt b hb
  rw [hpositionA, hpositionB]
  exact LineIndex.line_mono (Nat.le_of_lt hspans.2) hle

theorem lineStart_drain_openAt {earlier later : List Token} {token : Token}
    (h : ((openAt source offset stoppable).drain false).tokens = earlier ++ token :: later) :
    token.flags.lineStart = true ↔ token.isTrivia = false ∧
      ∀ t ∈ earlier, t.isTrivia = false →
        (LineIndex.ofText source.toList).line t.span.start ≠
          (LineIndex.ofText source.toList).line token.span.start := by
  let s := openAt source offset stoppable
  have hmarked : Token.Marked 0 (s.drain false).tokens :=
    (Progress.keepsLine_run .whole s.index s.progress s.upcoming).marked
  have hpairwise : (s.drain false).tokens.Pairwise _ := pairwise_line_drain_openAt
  have hposition : ∀ t ∈ (s.drain false).tokens, _ := position_of_mem_drain_openAt
  rw [h] at hmarked hpairwise hposition
  obtain ⟨htoken, hle⟩ := hposition token (List.mem_append_right _ List.mem_cons_self)
  have hline : token.position.line ≠ 0 := by
    rw [htoken, LineIndex.line_position hle]
    omega
  rw [hmarked.lineStart_iff hpairwise fun _ _ => Nat.zero_le _]
  refine and_congr_right fun _ => (and_iff_right hline).trans (forall₂_congr fun t ht => ?_)
  rw [(hposition t (List.mem_append_left _ ht)).1, htoken]
  rfl

end TokenStream

/-- **The marked tokens of a source** start where its first code on each line does. -/
theorem markedStarts_tokenizeFrom (source : String) (offset : Nat) :
    let start := Text.floorBoundary offset source.toList
    Token.markedStarts (tokenizeFrom source offset).tokens =
      (LineIndex.ofText source.toList).firstOnLines 0
        (Lexeme.codeStarts start (Lexeme.ofTextFrom start source.toList)) := by
  intro start
  obtain ⟨front, rest, hsource, hfront⟩ :=
    Text.exists_byteSize_eq_floorBoundary offset source.toList
  have hstart : Text.byteSize front = min start source.utf8ByteSize := by
    have hsize := congrArg Text.byteSize hsource
    rw [Text.byteSize_toList, Text.byteSize_append] at hsize
    omega
  have hrun : (tokenizeFrom source offset).tokens =
      (Progress.run .whole (LineIndex.ofText source.toList) ⟨.initial, 0⟩
        (TokenStream.openAt source start false).upcoming).1.tokens := rfl
  have hmarked := Progress.markedStarts_ofText front rest .whole ⟨.initial, 0⟩
  rw [← hsource, ← Lexeme.ofTextFrom_append front, ← hsource, hfront] at hmarked
  rw [hrun, TokenStream.upcoming_openAt hsource hstart, ← Lexeme.ofTextFrom_append front,
    ← hsource, hfront]
  exact hmarked

/-- A token that starts inside a lexeme is not marked if marked tokens start where code does. -/
theorem Token.lineStart_of_inside {tokens : List Token} {start : Nat} {ls : List Lexeme}
    (hmarked : markedStarts tokens ⊆ Lexeme.codeStarts start ls) {o : Occurrence}
    (ho : o ∈ Occurrence.ofLexemes start ls) {token : Token} (htoken : token ∈ tokens)
    (hstart : o.start < token.span.start) (hstop : token.span.start < o.stop) :
    token.flags.lineStart = false := by
  rw [Bool.eq_false_iff]
  intro hflag
  have hmem : token.span.start ∈ markedStarts tokens :=
    List.mem_map_of_mem (List.mem_filter.mpr ⟨htoken, hflag⟩)
  obtain ⟨o', ho', heq⟩ := Lexeme.exists_of_mem_codeStarts (hmarked hmem)
  have hle : o'.start ≤ o'.stop := Nat.le_add_right _ _
  rcases Occurrence.eq_or_apart ho ho' with rfl | hapart | hapart
  · omega
  · omega
  · omega

end JavaHighlight
