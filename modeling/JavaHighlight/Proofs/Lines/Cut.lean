import JavaHighlight.Proofs.Lines.Spans
import JavaHighlight.Proofs.TypeArguments.Paired

/-!
# Lines cut a source as it is cut as a whole

A source that is tokenized line by line falls into the lexemes it has as a whole, cut at the
starts of its lines (`tokenizeByLine_cuts_as_whole`). What is carried into a line is the construct
that reaches over its start, and every token has the position it has in the source.
-/

namespace JavaHighlight

open Text (EndsLine Terminated)

/-! ## Tokens that cover spans -/

/-- Tokens cover consecutive spans, one span each. Only the closing angle brackets of a run that
was split may share a span, which they cover byte by byte. -/
inductive Glued : List Token → List Span → Prop
  | nil : Glued [] []
  | one {token : Token} {tokens : List Token} {spans : List Span} (h : Glued tokens spans) :
      Glued (token :: tokens) (token.span :: spans)
  | angles {run tokens : List Token} {spans : List Span} {start n : Nat} (hn : 1 < n)
      (hspans : run.map Token.span = (List.range' start n).map fun i => ⟨i, i + 1⟩)
      (hrun : ∀ token ∈ run, token.kind = .genericClose ∧ token.flags.split = true)
      (h : Glued tokens spans) : Glued (run ++ tokens) (⟨start, start + n⟩ :: spans)

namespace Glued

variable {tokens tokens' : List Token} {spans spans' : List Span}

theorem append (h : Glued tokens spans) (h' : Glued tokens' spans') :
    Glued (tokens ++ tokens') (spans ++ spans') := by
  induction h with
  | nil => exact h'
  | one _ ih => exact ih.one
  | angles hn hspans hrun _ ih =>
    rw [List.append_assoc]
    exact .angles hn hspans hrun ih

theorem lift (h : Glued tokens spans) (start line : Nat) :
    Glued (tokens.map (Line.lift start line)) (spans.map (·.shift start)) := by
  induction h with
  | nil => exact .nil
  | one _ ih => exact ih.one
  | @angles run tokens spans first n hn hspans hrun _ ih =>
    have hshift : (⟨first, first + n⟩ : Span).shift start = ⟨first + start, first + start + n⟩ := by
      rw [Span.shift, Nat.add_right_comm]
    rw [List.map_append, List.map_cons, hshift]
    refine .angles hn ?_ ?_ ih
    · have hlift : (run.map (Line.lift start line)).map Token.span =
          (run.map Token.span).map (·.shift start) := by
        rw [List.map_map, List.map_map]
        rfl
      rw [hlift, hspans, List.map_map, Nat.add_comm first start, ← List.map_add_range',
        List.map_map]
      refine List.map_congr_left fun i _ => ?_
      simp [Span.shift]
      omega
    · intro token htoken
      obtain ⟨token', htoken', rfl⟩ := List.mem_map.mp htoken
      exact hrun token' htoken'

theorem start_lt (h : Glued tokens spans) {size : Nat}
    (hspans : ∀ span ∈ spans, span.start < span.stop ∧ span.stop ≤ size) :
    ∀ token ∈ tokens, token.span.start < size := by
  induction h with
  | nil => simp
  | one _ ih =>
    rw [List.forall_mem_cons] at hspans
    refine List.forall_mem_cons.mpr ⟨?_, ih hspans.2⟩
    omega
  | @angles run tokens spans first n hn hrange hrun _ ih =>
    rw [List.forall_mem_cons] at hspans
    intro token htoken
    rcases List.mem_append.mp htoken with htoken | htoken
    · have hspan := List.mem_map_of_mem (f := Token.span) htoken
      rw [hrange] at hspan
      obtain ⟨i, hi, hspan⟩ := List.mem_map.mp hspan
      rw [← hspan]
      have := List.mem_range'_1.mp hi
      dsimp only at hspans ⊢
      omega
    · exact ih hspans.2 token htoken

end Glued

/-! ## What lexemes cover -/

namespace Progress

variable {mode : Mode} {index : LineIndex}

/-- The tokens of closing angle brackets that were split cover a byte each. -/
theorem spans_emitPieces_closingAngle (index : LineIndex) (start n : Nat)
    (progress : Progress) :
    let tokens :=
      (progress.emitPieces index start (List.replicate n (Piece.closingAngle true))).1.tokens
    tokens.map Token.span = (List.range' start n).map (fun i => ⟨i, i + 1⟩) ∧
      ∀ token ∈ tokens, token.kind = .genericClose ∧ token.flags.split = true := by
  induction n generalizing start progress with
  | zero => exact ⟨rfl, by simp [emitPieces]⟩
  | succ n ih =>
    obtain ⟨hspans, hkinds⟩ :=
      ih (start + 1) (progress.emitPiece index start (Piece.closingAngle true)).2
    constructor
    · rw [List.replicate_succ, emitPieces, List.range'_succ, List.map_cons, ← hspans]
      rfl
    · rw [List.replicate_succ, emitPieces]
      exact List.forall_mem_cons.mpr ⟨⟨rfl, rfl⟩, hkinds⟩

theorem glued_emit {progress : Progress} (o : Occurrence) {depth : Nat}
    (h : progress.context.Promised depth
      (if o.lexeme.isTrivia then o.ahead else o.lexeme :: o.ahead))
    (hl : o.lexeme.InText) {tokens : List Token} {spans : List Span} (hrest : Glued tokens spans) :
    Glued ((progress.emit mode index o).1.tokens ++ tokens) (o.span :: spans) := by
  have hone : ∀ piece, piece.length = o.lexeme.length →
      (Reading.ofLexeme mode progress.context o.lexeme o.ahead).pieces = [piece] →
      Glued ((progress.emit mode index o).1.tokens ++ tokens) (o.span :: spans) := by
    intro piece hlength hpieces
    simp only [emit, Emission.tokens_append, List.nil_append, hpieces, emitPieces,
      Emission.tokens_empty, List.append_nil]
    have hspan : o.span = ⟨o.start, o.start + piece.length⟩ := by rw [hlength]; rfl
    rw [hspan]
    exact hrest.one
  by_cases hangles : o.lexeme.shape.closingAngles = 0
  · obtain ⟨kind, -, flags, opensLambda, hpieces⟩ :=
      Reading.isOnePiece_ofLexeme hangles hl.not_end mode progress.context o.ahead
    exact hone _ rfl hpieces
  · have htrivia : o.lexeme.isTrivia = false := by
      rw [Bool.eq_false_iff]
      exact fun htrivia => hangles (Shape.closingAngles_of_isTrivia htrivia).1
    rw [htrivia, if_neg Bool.false_ne_true] at h
    rcases h.pieces_of_closingAngles hangles mode with hpieces | hpieces
    · by_cases hn : 1 < o.lexeme.shape.closingAngles
      · rw [decide_eq_true hn] at hpieces
        obtain ⟨hspans, hkinds⟩ := spans_emitPieces_closingAngle index o.start
          o.lexeme.shape.closingAngles progress
        have hspan : o.span = ⟨o.start, o.start + o.lexeme.shape.closingAngles⟩ := by
          rw [← hl.angles hangles]
          rfl
        simp only [emit, Emission.tokens_append, List.nil_append, hpieces]
        rw [hspan]
        exact .angles hn hspans hkinds hrest
      · have hunit : o.lexeme.shape.closingAngles = 1 := by omega
        rw [hunit] at hpieces
        exact hone _ (by rw [hl.angles hangles, hunit]; rfl) hpieces
    · exact hone _ rfl hpieces

/-- The tokens of a run cover the spans of its lexemes. -/
theorem glued_run (progress : Progress) {depth : Nat} {ls : List Lexeme}
    (h : progress.context.Promised depth (ls.filter (·.isSignificant)))
    (hls : ∀ l ∈ ls, l.InText) (start : Nat) :
    Glued (progress.run mode index (Occurrence.ofLexemes start ls)).1.tokens
      (Lexeme.spans start ls) := by
  induction ls generalizing start progress depth with
  | nil => exact .nil
  | cons l ls ih =>
    rw [Lexeme.filter_isSignificant_cons] at h
    rw [List.forall_mem_cons] at hls
    obtain ⟨depth', h', -⟩ := h.keeps mode
    rw [Occurrence.ofLexemes, run, Emission.tokens_append, Lexeme.spans_cons,
      Occurrence.significant_ofLexemes]
    rw [← context_emit mode index progress ⟨l, start, _⟩] at h'
    exact glued_emit ⟨l, start, _⟩ h hls.1 (ih _ h' hls.2 _)

end Progress

/-! ## Lines -/

namespace Line

theorem totalLength_carriedLexeme (carry : Option Construct) (cs : List Char) :
    Lexeme.totalLength (carriedLexeme carry cs) = Text.byteSize (carriedPart carry cs) := by
  have hsum := totalLength_resume carry cs
  have hrest := totalLength_resume none (rest carry cs)
  rw [resume, Lexeme.totalLength_append] at hsum
  rw [resume_none] at hrest
  have hsize := byteSize_parts carry cs
  omega

theorem glued_carriedTokens (carry : Option Construct) (cs : List Char) :
    Glued (carriedTokens carry cs) (Lexeme.spans 0 (carriedLexeme carry cs)) := by
  cases carry with
  | none => exact .nil
  | some construct =>
    have hsum := totalLength_carriedLexeme (some construct) cs
    unfold carriedTokens continuation
    unfold carriedLexeme at hsum ⊢
    dsimp only at hsum ⊢
    by_cases hcs : cs = []
    · rw [if_pos hcs] at hsum ⊢
      have hzero : Text.byteSize (carriedPart (some construct) cs) = 0 := hsum.symm
      rw [if_pos hzero]
      exact .nil
    · have hpos := Text.byteSize_pos (carriedPart_ne_nil hcs construct)
      rw [if_neg hcs] at hsum ⊢
      rw [if_neg (Nat.ne_of_gt hpos), Lexeme.spans_cons, Nat.zero_add]
      rw [Lexeme.totalLength_singleton] at hsum
      rw [hsum]
      exact .one .nil

/-- The tokens of a line cover the lexemes of the line, resumed with what is open in front of it. -/
theorem glued_tokenizeLine {state : LineState} (h : state.context.Promised 0 []) (line : String) :
    Glued (tokenizeLine line state).tokens
      (Lexeme.spans 0 (resume state.carry line.toList)) := by
  have hstart := promised_contextOfRest h line.toList
    ((Lexeme.ofText (rest state.carry line.toList)).filter (·.isSignificant))
  have hrun : Glued (run state line.toList).1.tokens
      (Lexeme.spans (Text.byteSize (carriedPart state.carry line.toList))
        (Lexeme.ofText (rest state.carry line.toList))) :=
    Progress.glued_run ⟨contextOfRest state line.toList, 0⟩ hstart
      (fun l hl => Lexeme.inText_of_mem_ofText hl) _
  rw [tokenizeLine_eq, resume, Lexeme.spans_append, totalLength_carriedLexeme, Nat.zero_add]
  exact (glued_carriedTokens _ _).append hrun

theorem shift_spans (offset start : Nat) (ls : List Lexeme) :
    (Lexeme.spans start ls).map (·.shift offset) = Lexeme.spans (start + offset) ls := by
  induction ls generalizing start with
  | nil => rfl
  | cons l ls ih =>
    rw [Lexeme.spans_cons, Lexeme.spans_cons, List.map_cons, ih, Span.shift, Nat.add_right_comm]

theorem glued_tokenizeFrom (lines : List (List Char)) {state : LineState}
    (h : state.context.Promised 0 []) (start number : Nat) :
    Glued (tokenizeFrom start number state lines).1.tokens
      (spansOfLines start state.carry lines) := by
  induction lines generalizing state start number with
  | nil => exact .nil
  | cons line lines ih =>
    have hline := (glued_tokenizeLine h (String.ofList line)).lift start number
    have hrest := ih (promised_tokenizeLine h (String.ofList line)) (start + Text.byteSize line)
      (number + 1)
    rw [String.toList_ofList, shift_spans, Nat.zero_add] at hline
    rw [carry_tokenizeLine] at hrest
    rw [tokenizeFrom, spansOfLines]
    exact hline.append hrest

theorem carry_tokenizeFrom (lines : List (List Char)) (state : LineState) (start number : Nat) :
    (tokenizeFrom start number state lines).2.carry = lines.foldl carryBehind state.carry := by
  induction lines generalizing state start number with
  | nil => rfl
  | cons line lines ih =>
    rw [tokenizeFrom, List.foldl_cons]
    dsimp only
    rw [ih, carry_tokenizeLine]

/-- What is carried through terminated lines is what is open behind all of them. -/
theorem foldl_carryBehind {lines : List (List Char)} (h : ∀ line ∈ lines, Terminated line) :
    lines.foldl carryBehind none = carryBehind none lines.flatten := by
  have hfold : ∀ (lines : List (List Char)) (u : List Char), EndsLine u →
      (∀ line ∈ lines, Terminated line) →
      lines.foldl carryBehind (carryBehind none u) = carryBehind none (u ++ lines.flatten) := by
    intro lines
    induction lines with
    | nil => intro u _ _; rw [List.foldl_nil, List.flatten_nil, List.append_nil]
    | cons line lines ih =>
      intro u hu hlines
      rw [List.forall_mem_cons] at hlines
      have hline : EndsLine (u ++ line) :=
        (Text.endsLine_append_iff hlines.1.ne_nil).mpr hlines.1.endsLine
      rw [List.foldl_cons, ← carryBehind_append none (hu.lineBorder line), ih _ hline hlines.2,
        List.flatten_cons, List.append_assoc]
  exact hfold lines [] Text.endsLine_nil h

/-! ## Positions -/

theorem position_of_mem_run {mode : Mode} {index : LineIndex} {progress : Progress}
    {os : List Occurrence} {token : Token} (h : token ∈ (progress.run mode index os).1.tokens) :
    token.position = index.position token.span.start := by
  have hpieces : ∀ (pieces : List Piece) (start : Nat) (progress : Progress),
      ∀ token ∈ (progress.emitPieces index start pieces).1.tokens,
        token.position = index.position token.span.start := by
    intro pieces
    induction pieces with
    | nil => intro start progress token htoken; cases htoken
    | cons piece pieces ih =>
      intro start progress token htoken
      rw [Progress.emitPieces, Emission.tokens_append, List.mem_append] at htoken
      rcases htoken with htoken | htoken
      · rw [List.mem_singleton.mp htoken]
      · exact ih _ _ token htoken
  rw [Progress.tokens_run, List.mem_flatMap] at h
  obtain ⟨v, -, h⟩ := h
  simp only [Visit.emission, Progress.emit, Emission.tokens_append, List.nil_append] at h
  exact hpieces _ _ _ token h

theorem column_of_mem_tokenizeLine {state : LineState} (h : state.context.Promised 0 [])
    {line : List Char} {later : List (List Char)} (hline : Text.lines line = line :: later)
    {token : Token} (htoken : token ∈ (tokenizeLine (String.ofList line) state).tokens) :
    token.position.column = token.span.start + 1 ∧ token.span.start < Text.byteSize line := by
  have hlt : token.span.start < Text.byteSize line := by
    have hglued := glued_tokenizeLine h (String.ofList line)
    rw [String.toList_ofList] at hglued
    refine hglued.start_lt ?_ token htoken
    intro span hspan
    have hle := (le_of_mem_spans_resume hspan).2
    rw [Nat.zero_add] at hle
    exact ⟨start_lt_stop_of_mem_spans_resume hspan, hle⟩
  refine ⟨?_, hlt⟩
  rw [tokenizeLine_eq, String.toList_ofList, List.mem_append] at htoken
  rcases htoken with htoken | htoken
  · unfold carriedTokens continuation at htoken
    split at htoken
    · cases htoken
    · split_ifs at htoken
      · cases htoken
      · rw [List.mem_singleton.mp htoken]
  · have hline' : Text.lines line = [] ++ line :: later := hline
    have hposition := LineIndex.position_of_line hline' hlt
    rw [List.flatten_nil, Text.byteSize_nil, Nat.zero_add] at hposition
    rw [position_of_mem_run htoken, hposition]

/-- A token of one of the lines of a source has the position it has in the source. -/
theorem position_of_mem_tokenizeFrom {cs : List Char} (lines : List (List Char))
    {earlier : List (List Char)} (hcs : Text.lines cs = earlier ++ lines)
    (hlines : ∀ line ∈ lines, ∃ later, Text.lines line = line :: later) {state : LineState}
    (h : state.context.Promised 0 []) :
    ∀ token ∈ (tokenizeFrom (Text.byteSize earlier.flatten) (earlier.length + 1) state
        lines).1.tokens, token.position = (LineIndex.ofText cs).position token.span.start := by
  induction lines generalizing earlier state with
  | nil => intro token htoken; cases htoken
  | cons line lines ih =>
    rw [List.forall_mem_cons] at hlines
    obtain ⟨⟨later, hline⟩, hlines⟩ := hlines
    intro token htoken
    rw [tokenizeFrom, Emission.tokens_append, List.mem_append] at htoken
    rcases htoken with htoken | htoken
    · obtain ⟨token', htoken', rfl⟩ := List.mem_map.mp htoken
      obtain ⟨hcolumn, hlt⟩ := column_of_mem_tokenizeLine h hline htoken'
      have hposition := LineIndex.position_of_line hcs hlt
      rw [← hcolumn, Nat.add_comm (Text.byteSize _)] at hposition
      exact hposition.symm
    · have hcs' : Text.lines cs = (earlier ++ [line]) ++ lines := by
        rw [hcs, List.append_assoc]
        rfl
      have hrest := ih hcs' hlines (promised_tokenizeLine h (String.ofList line))
      rw [List.flatten_append, List.flatten_singleton, Text.byteSize_append, List.length_append]
        at hrest
      exact hrest token htoken

end Line

/-- **Lines cut a source as it is cut as a whole.** What is carried into a line is the construct
of the source that starts in front of the line and reaches over its start, or lacks its end.
The tokens of the lines cover the lexemes of the source, cut at the starts of the lines. They
have the positions of the source. -/
theorem tokenizeByLine_cuts_as_whole (source : String) :
    (∀ (k : Fin (LineIndex.ofText source.toList).starts.length) (construct : Construct),
      let start := (LineIndex.ofText source.toList).starts[k]
      (Line.tokenizeFrom 0 1 .initial ((Text.lines source.toList).take k)).2.carry =
          some construct ↔
        ∃ o ∈ Occurrence.ofLexemes 0 (Lexeme.ofText source.toList),
          o.lexeme.construct? = some construct ∧ o.start < start ∧
            (start < o.stop ∨ o.lexeme.shape.isOpen = true)) ∧
    Glued (tokenizeByLine source).tokens
      ((Occurrence.ofLexemes 0 (Lexeme.ofText source.toList)).flatMap fun o =>
        o.span.cutAt (LineIndex.ofText source.toList).starts) ∧
    (tokenizeByLine source).tokens.map Token.position =
      (tokenizeByLine source).tokens.map fun token =>
        (LineIndex.ofText source.toList).position token.span.start := by
  let cs := source.toList
  let index := LineIndex.ofText cs
  have hlined := Text.lined_lines cs
  have hinitial : LineState.initial.context.Promised 0 [] := Context.promised_initial []
  refine ⟨fun k construct => ?_, ?_, ?_⟩
  · have hk : k.val < (Text.lines cs).length := by
      have hlength : index.starts.length = (Text.lines cs).length := Text.length_startsFrom _ _
      exact hlength ▸ k.isLt
    have hterminated := hlined.terminated_of_mem_take hk
    have hstart : index.starts[k] = Text.byteSize ((Text.lines cs).take k).flatten :=
      (Text.getElem_startsFrom 0 (Text.lines cs) k.isLt).trans (Nat.zero_add _)
    have hsplit : ((Text.lines cs).take k).flatten ++ ((Text.lines cs).drop k).flatten = cs := by
      rw [← List.flatten_append, List.take_append_drop, Text.flatten_lines]
    have hiff := Line.carryBehind_eq_some_iff (Text.endsLine_flatten hterminated)
      ((Text.lines cs).drop k).flatten construct
    rw [hsplit, ← hstart] at hiff
    rw [Line.carry_tokenizeFrom]
    exact (Line.foldl_carryBehind hterminated).symm ▸ hiff
  · have hglued := Line.glued_tokenizeFrom (Text.lines cs) hinitial 0 1
    have hspans := Line.spans_resume_cutAt hlined none 0
    rw [Text.flatten_lines, Line.resume_none, Lexeme.spans, List.flatMap_map] at hspans
    show Glued (tokenizeByLine source).tokens
      ((Occurrence.ofLexemes 0 (Lexeme.ofText cs)).flatMap fun o =>
        o.span.cutAt (Text.startsFrom 0 (Text.lines cs)))
    rw [hspans]
    exact hglued
  · have hcs : Text.lines cs = [] ++ Text.lines cs := rfl
    exact List.map_congr_left
      (Line.position_of_mem_tokenizeFrom _ hcs hlined.lines_of_mem hinitial)

end JavaHighlight
