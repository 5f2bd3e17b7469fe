import JavaHighlight.Proofs.Lines.TriviaCut

/-!
# Lines agree with their source

A source whose lines keep to themselves is tokenized line by line as it is as a whole
(`tokenizeByLine_agrees`): all lexemes have their ends, and no lookahead goes past the end of a
line because a semicolon or a brace comes last on it. The induction goes through the lines
(`Line.tokenizeFrom_eq_run`); its invariant is `Line.Aligned`, which each line keeps
(`Line.Aligned.step`).
-/

namespace JavaHighlight

open Text (EndsLine Lined Terminated)

/-! ## The last lexemes of lines -/

namespace Occurrence

variable {start : Nat} {behind ls : List Lexeme} {o : Occurrence}

@[simp] theorem map_lexeme_before (behind : List Lexeme) (start : Nat) (ls : List Lexeme) :
    (before behind start ls).map lexeme = ls := by
  induction ls generalizing start with
  | nil => rfl
  | cons l ls ih => rw [before, List.map_cons, ih]

theorem start_of_mem_before (hls : ∀ l ∈ ls, 0 < l.length) (h : o ∈ before behind start ls) :
    start ≤ o.start ∧ o.start < start + Lexeme.totalLength ls := by
  induction ls generalizing start with
  | nil => cases h
  | cons l ls ih =>
    rw [List.forall_mem_cons] at hls
    rw [Lexeme.totalLength_cons]
    rw [before, List.mem_cons] at h
    rcases h with rfl | h
    · dsimp only
      omega
    · have := ih hls.2 h
      omega

theorem start_of_mem_ofLexemes (hls : ∀ l ∈ ls, 0 < l.length) (h : o ∈ ofLexemes start ls) :
    start ≤ o.start ∧ o.start < start + Lexeme.totalLength ls := by
  rw [← before_nil] at h
  exact start_of_mem_before hls h

theorem map_lexeme_filter_before (behind : List Lexeme) (start : Nat) (ls : List Lexeme) :
    ((before behind start ls).filter (·.lexeme.isSignificant)).map lexeme =
      ls.filter (·.isSignificant) := by
  have hfilter : ((before behind start ls).map lexeme).filter (·.isSignificant) =
      ((before behind start ls).filter (·.lexeme.isSignificant)).map lexeme := List.filter_map
  rw [← hfilter, map_lexeme_before]

/-- The last of the significant lexemes that start from `start` on and in front of `stop`. -/
def lastBetween (start stop : Nat) (os : List Occurrence) : Option Occurrence :=
  ((os.filter (·.lexeme.isSignificant)).filter fun o =>
    start ≤ o.start && o.start < stop).getLast?

end Occurrence

namespace Line

def stops : List Shape := [.symbol .semicolon, .symbol .leftBrace, .symbol .rightBrace]

theorem stopsLambda_of_mem_stops {l : Lexeme} (h : l.shape ∈ stops) :
    Lookahead.stopsLambda l = true := by
  rw [Lookahead.stopsLambda, List.any_eq_true]
  rcases List.mem_cons.mp h with h | h
  · exact ⟨.semicolon, by decide, decide_eq_true h⟩
  rcases List.mem_cons.mp h with h | h
  · exact ⟨.leftBrace, by decide, decide_eq_true h⟩
  · exact ⟨.rightBrace, by decide, decide_eq_true (List.mem_singleton.mp h)⟩

/-- Between any two consecutive starts of lines, no significant lexeme starts or the last one that
does is a semicolon or a brace. -/
def EndWithStops (starts : List Nat) (os : List Occurrence) : Prop :=
  ∀ line ∈ starts.zip starts.tail, ∀ o ∈ Occurrence.lastBetween line.1 line.2 os,
    o.lexeme.shape ∈ stops

instance (starts : List Nat) (os : List Occurrence) : Decidable (EndWithStops starts os) :=
  inferInstanceAs (Decidable (∀ line ∈ starts.zip starts.tail,
    ∀ o ∈ Occurrence.lastBetween line.1 line.2 os, o.lexeme.shape ∈ stops))

variable {start q : Nat} {qs : List Nat} {a b : List Occurrence}

theorem EndWithStops.congr {starts : List Nat} (h : EndWithStops starts a)
    (hab : b.filter (·.lexeme.isSignificant) = a.filter (·.lexeme.isSignificant)) :
    EndWithStops starts b := by
  intro line hline o ho
  refine h line hline o ?_
  rw [Occurrence.lastBetween, ← hab]
  exact ho

theorem EndWithStops.split (h : EndWithStops (start :: q :: qs) (a ++ b))
    (ha : ∀ o ∈ a, start ≤ o.start ∧ o.start < q) (hb : ∀ o ∈ b, q ≤ o.start)
    (hqs : ∀ p ∈ qs, q ≤ p) :
    (∀ o ∈ (a.filter (·.lexeme.isSignificant)).getLast?, o.lexeme.shape ∈ stops) ∧
      EndWithStops (q :: qs) b := by
  constructor
  · intro o ho
    refine h (start, q) List.mem_cons_self o ?_
    have hall : (a.filter (·.lexeme.isSignificant)).filter
        (fun o => start ≤ o.start && o.start < q) = a.filter (·.lexeme.isSignificant) := by
      refine List.filter_eq_self.mpr fun o ho => ?_
      have := ha o (List.mem_filter.mp ho).1
      simp [this]
    have hnone : (b.filter (·.lexeme.isSignificant)).filter
        (fun o => start ≤ o.start && o.start < q) = [] := by
      refine List.filter_eq_nil_iff.mpr fun o ho => ?_
      have := hb o (List.mem_filter.mp ho).1
      simp
      omega
    rw [Occurrence.lastBetween, List.filter_append, List.filter_append, hall, hnone,
      List.append_nil]
    exact ho
  · intro line hline o ho
    refine h line (List.mem_cons_of_mem _ hline) o ?_
    have hq : q ≤ line.1 := by
      rcases List.mem_cons.mp (List.of_mem_zip hline).1 with heq | hmem
      · exact Nat.le_of_eq heq.symm
      · exact hqs _ hmem
    have hnone : (a.filter (·.lexeme.isSignificant)).filter
        (fun o => line.1 ≤ o.start && o.start < line.2) = [] := by
      refine List.filter_eq_nil_iff.mpr fun o ho => ?_
      have := ha o (List.mem_filter.mp ho).1
      simp
      omega
    rw [Occurrence.lastBetween, List.filter_append, List.filter_append, hnone, List.nil_append]
    exact ho

/-- What ends the lexemes in front of a cut is a semicolon or a brace, or nothing. -/
theorem EndWithStops.of_triviaCut {ls u v : List Lexeme} (hcut : Lexeme.TriviaCut ls u v)
    (hu : ∀ l ∈ u, 0 < l.length) (hv : ∀ l ∈ v, 0 < l.length)
    (hq : start + Lexeme.totalLength u = q) (hqs : ∀ p ∈ qs, q ≤ p)
    (h : EndWithStops (start :: q :: qs) (Occurrence.ofLexemes start ls)) :
    (∀ l ∈ (u.filter (·.isSignificant)).getLast?, Lookahead.stopsLambda l = true) ∧
      EndWithStops (q :: qs) (Occurrence.ofLexemes q v) := by
  let behind := v.filter (·.isSignificant)
  have hparts := h.congr (hcut.significant_eq start)
  rw [Occurrence.ofLexemes_append, hq] at hparts
  obtain ⟨hend, hrest⟩ := hparts.split
    (fun o ho => hq ▸ Occurrence.start_of_mem_before hu ho)
    (fun o ho => (Occurrence.start_of_mem_ofLexemes hv ho).1) hqs
  refine ⟨fun l hl => ?_, hrest⟩
  rw [← Occurrence.map_lexeme_filter_before behind start, List.getLast?_map] at hl
  obtain ⟨o, ho, rfl⟩ := Option.map_eq_some_iff.mp hl
  exact stopsLambda_of_mem_stops (hend o ho)

/-- No text block reaches over the end of a line that a semicolon or a brace ends: it would be
the last significant lexeme that starts on the line. -/
theorem carryBehind_ne_textBlock {carry : Option Construct} {u v : List Char} (hu : EndsLine u)
    (hne : u ≠ []) (hclosed : ∀ l ∈ resume carry (u ++ v), l.shape.isOpen = false)
    (hqs : ∀ p ∈ qs, start + Text.byteSize u ≤ p)
    (hstops : EndWithStops (start :: (start + Text.byteSize u) :: qs)
      (Occurrence.ofLexemes start (resume carry (u ++ v)))) :
    carryBehind carry u ≠ some .textBlock := by
  intro hblock
  have hpos : ∀ l ∈ resume carry (u ++ v), 0 < l.length := by
    intro l hl
    rw [(length_of_mem_resume hl).1]
    exact Text.byteSize_pos (length_of_mem_resume hl).2
  cases junction carry (hu.lineBorder v) hne with
  | apart hcarry _ => rw [hblock] at hcarry; cases hcarry
  | blank before x y after hcarry _ _ _ => rw [hblock] at hcarry; cases hcarry
  | construct construct before x hcarry hx hresume h =>
    obtain rfl : Construct.textBlock = construct := Option.some.inj (hblock.symm.trans hcarry)
    obtain ⟨hne, hsize, hlength⟩ := byteSize_of_cut hresume h
    have hxpos := Text.byteSize_pos hne
    rw [h, List.forall_mem_append, List.forall_mem_cons] at hclosed hpos
    have hshape := Construct.shapeIn_eq_closedShape hclosed.2.1
    rw [h, hshape, Occurrence.ofLexemes_append, Occurrence.ofLexemes, List.append_cons] at hstops
    refine absurd (hstops.split ?_ ?_ hqs).1 fun hend => ?_
    · intro o ho
      rcases List.mem_append.mp ho with ho | ho
      · have := Occurrence.start_of_mem_before hpos.1 ho
        omega
      · rw [List.mem_singleton.mp ho]
        dsimp only
        omega
    · intro o ho
      have := Occurrence.start_of_mem_ofLexemes hpos.2.2 ho
      rw [← hshape] at this
      omega
    · rw [List.filter_append] at hend
      have hlast := hend _ (List.getLast?_concat ..)
      exact absurd hlast (show Shape.textBlock ∉ stops by decide)

/-- Where the lines of a source lie. -/
theorem covers_of_lines {cs line : List Char} {earlier later later' : List (List Char)}
    (hcs : Text.lines cs = earlier ++ line :: later) (hline : Text.lines line = line :: later') :
    (LineIndex.ofText cs).Covers (LineIndex.ofText line) (Text.byteSize earlier.flatten)
      (earlier.length + 1) (Text.byteSize line) where
  whole_position _ ho := LineIndex.position_of_line hcs ho
  line_position o ho := by
    have hline' : Text.lines line = [] ++ line :: later' := hline
    have hposition := LineIndex.position_of_line hline' ho
    rw [List.flatten_nil, Text.byteSize_nil, Nat.zero_add] at hposition
    exact hposition

/-- The lines of a source behind `earlier` ones are about to be read, as is what is left of the
source: the contexts are the same, and what is left has its ends and no lookahead that goes past
the end of a line. -/
structure Aligned (cs : List Char) (earlier lines : List (List Char)) (state : LineState)
    (progress : Progress) : Prop where
  lines_eq : Text.lines cs = earlier ++ lines
  carry : state.carry ≠ some .textBlock
  context : progress.context = state.context
  lastLine : progress.lastLine < earlier.length + 1
  closed : ∀ l ∈ resume state.carry lines.flatten, l.shape.isOpen = false
  stops : EndWithStops (Text.startsFrom (Text.byteSize earlier.flatten) lines)
    (Occurrence.ofLexemes (Text.byteSize earlier.flatten) (resume state.carry lines.flatten))

namespace Aligned

variable {cs l : List Char} {earlier ls : List (List Char)} {state : LineState}
  {progress : Progress}

theorem tokenizeLine_eq_run (h : Aligned cs earlier [l] state progress)
    (hl : ∀ c ∈ l, Text.isLineEnd c = false) :
    let start := Text.byteSize earlier.flatten
    let run := progress.run .whole (LineIndex.ofText cs)
      (Occurrence.ofLexemes start (resume state.carry l))
    let output := tokenizeLine (String.ofList l) state
    run.1 = (Emission.mk output.tokens output.diagnostics).lift start (earlier.length + 1) ∧
      run.2.context = output.state.context := by
  intro start run output
  have hclosed := h.closed
  rw [List.flatten_singleton] at hclosed
  have hrest : ∀ x ∈ Lexeme.ofText (rest state.carry l), x.shape.isOpen = false :=
    fun x hx => hclosed x (List.mem_append_right _ hx)
  have hblock : ∀ x ∈ Lexeme.ofText (rest state.carry l), x.shape ≠ .unterminatedTextBlock := by
    intro x hx hshape
    have hopen := hrest x hx
    rw [hshape] at hopen
    cases hopen
  have hline := Text.lines_of_unterminated hl
  obtain ⟨hemission, hcontext, -⟩ := tokenizeLine_inStep hline (covers_of_lines h.lines_eq hline)
    h.carry hblock h.context h.lastLine (.inl ⟨rfl, hrest⟩)
  rw [closed_eq_resume hclosed, Occurrence.before_nil] at hemission hcontext
  exact ⟨hemission, hcontext⟩

/-- A line is read as the lexemes of the source that are cut off at its end. -/
theorem step (h : Aligned cs earlier (l :: ls) state progress) (hl : Terminated l)
    (hls : ls ≠ []) :
    let start := Text.byteSize earlier.flatten
    let after := resume (carryBehind state.carry l) ls.flatten
    let first := progress.run .whole (LineIndex.ofText cs)
      (Occurrence.before (after.filter (·.isSignificant)) start (Line.closed state.carry l))
    let output := tokenizeLine (String.ofList l) state
    Lexeme.TriviaCut (resume state.carry (l ++ ls.flatten)) (Line.closed state.carry l) after ∧
      first.1 = (Emission.mk output.tokens output.diagnostics).lift start (earlier.length + 1) ∧
      Aligned cs (earlier ++ [l]) ls output.state first.2 := by
  intro start after first output
  obtain ⟨qs, hqs, hle⟩ := startsFrom_eq_cons (start + Text.byteSize l) hls
  have hclosed := h.closed
  have hstops := h.stops
  rw [List.flatten_cons] at hclosed hstops
  rw [Text.startsFrom, hqs] at hstops
  -- At most a piece of trivia is cut in two.
  have hblock := carryBehind_ne_textBlock hl.endsLine hl.ne_nil hclosed hle hstops
  obtain ⟨hcut, hclosed'⟩ := triviaCut_resume hl.endsLine hl.ne_nil hclosed hblock
  have hsum : start + Lexeme.totalLength (Line.closed state.carry l) =
      start + Text.byteSize l := by
    rw [totalLength_closed]
  obtain ⟨hend, hstops'⟩ := hstops.of_triviaCut hcut (fun x hx => (mem_closed hx).2)
    (fun x hx => (mem_resume hx).2) hsum hle
  obtain ⟨hemission, hcontext, hlast⟩ := tokenizeLine_inStep hl.lines_eq
    (covers_of_lines h.lines_eq hl.lines_eq) h.carry (shape_ne_of_carryBehind hblock) h.context
    h.lastLine (.inr hend : after.filter (·.isSignificant) = [] ∧ _ ∨ _)
  have hcarry : output.state.carry = carryBehind state.carry l := carry_tokenizeLine l state
  have hstart : Text.byteSize (earlier ++ [l]).flatten = start + Text.byteSize l := by
    rw [List.flatten_append, List.flatten_singleton, Text.byteSize_append]
  refine ⟨hcut, hemission, ?_, ?_, hcontext, ?_, ?_, ?_⟩
  · rw [h.lines_eq, List.append_assoc]
    rfl
  · rw [hcarry]
    exact hblock
  · rw [List.length_append]
    exact Nat.lt_succ_of_le hlast
  · rw [hcarry]
    exact hclosed'
  · rw [hcarry, hstart, hqs]
    exact hstops'

end Aligned

/-- **From any line on, lines agree with their source.** -/
theorem tokenizeFrom_eq_run {cs : List Char} {lines : List (List Char)} (hlined : Lined lines)
    {earlier : List (List Char)} {state : LineState} {progress : Progress}
    (h : Aligned cs earlier lines state progress) :
    let start := Text.byteSize earlier.flatten
    let run := progress.run .whole (LineIndex.ofText cs)
      (Occurrence.ofLexemes start (resume state.carry lines.flatten))
    let result := tokenizeFrom start (earlier.length + 1) state lines
    result.1 = run.1.cutAt (LineIndex.ofText cs) (Text.startsFrom start lines) ∧
      result.2.context = run.2.context := by
  induction hlined generalizing earlier state progress with
  | @last l hl =>
    intro start run result
    obtain ⟨hemission, hcontext⟩ := h.tokenizeLine_eq_run hl
    have hrun : run = progress.run .whole (LineIndex.ofText cs)
        (Occurrence.ofLexemes start (resume state.carry l)) := by
      rw [← List.flatten_singleton (l := l)]
    rw [Text.startsFrom, Text.startsFrom, Emission.cutAt_cons, Emission.cutAt_nil, hrun,
      Progress.cut_run_start fun x hx => mem_resume hx, hemission]
    exact ⟨Emission.append_empty _, hcontext.symm⟩
  | @cons l ls hl hls ih =>
    intro start run result
    let index := LineIndex.ofText cs
    let q := start + Text.byteSize l
    let after := resume (carryBehind state.carry l) ls.flatten
    let first := progress.run .whole index
      (Occurrence.before (after.filter (·.isSignificant)) start (closed state.carry l))
    let others := first.2.run .whole index (Occurrence.ofLexemes q after)
    obtain ⟨qs, hqs, hle⟩ := startsFrom_eq_cons q hls.ne_nil
    obtain ⟨hcut, hemission, hnext⟩ := h.step hl hls.ne_nil
    obtain ⟨hlines, hcontext⟩ := ih hnext
    have hstart : Text.byteSize (earlier ++ [l]).flatten = q := by
      rw [List.flatten_append, List.flatten_singleton, Text.byteSize_append]
    rw [carry_tokenizeLine, hstart, List.length_append] at hlines hcontext
    obtain ⟨hrun, hprogress⟩ := hcut.cutAt_run (fun x hx => mem_resume hx)
      (List.forall_mem_append.mpr ⟨fun x hx => mem_closed hx, fun x hx => mem_resume hx⟩)
      .whole index progress (by rw [totalLength_closed]) hle
    refine ⟨?_, hcontext.trans (congrArg Progress.context hprogress.symm)⟩
    calc result.1 = first.1 ++ others.1.cutAt index (Text.startsFrom q ls) := by
          rw [← hlines, hemission]
          rfl
      _ = run.1.cutAt index (Text.startsFrom start (l :: ls)) := by
          rw [Text.startsFrom, hqs, ← hrun]
          rfl

end Line

theorem tokenize_eq_run (source : String) :
    let cs := source.toList
    let index := LineIndex.ofText cs
    let run := (Progress.mk .initial 0).run .whole index
      (Occurrence.ofLexemes 0 (Lexeme.ofText cs))
    let context := (TokenStream.openAt source 0 false).lastContext
    context = run.2.context ∧
      tokenize source = ⟨run.1.tokens, run.1.diagnostics ++
        context.unclosed?.toList.map (fun issue => ⟨.point index.size, .unbalanced issue⟩),
        false⟩ := by
  intro cs index run context
  have hopen : TokenStream.openAt source 0 false =
      { index, upcoming := Occurrence.ofLexemes 0 (Lexeme.ofText cs), pending := [],
        progress := ⟨.initial, 0⟩, recorded := [], stoppable := false, status := .reading } := by
    unfold TokenStream.openAt
    dsimp only
    rw [Nat.zero_min, Lexeme.ofTextFrom, Text.dropBytes_zero]
    rfl
  have hcontext : context = run.2.context := by
    show (TokenStream.openAt source 0 false).lastContext = _
    rw [hopen]
    rfl
  refine ⟨hcontext, ?_⟩
  rw [hcontext, tokenize_eq_drain, TokenStream.drain_openAt, hopen]
  rfl

/-- **Lines agree with their source** if all lexemes of the source have their ends and every line
but the last ends with a semicolon or a brace, or starts no significant lexeme. The significant
tokens are the same, and so is the context in the end. Trivia is that of the source, cut at the
starts of the lines. Only what the source leaves open is not reported. -/
theorem tokenizeByLine_agrees (source : String)
    (hclosed : ∀ l ∈ Lexeme.ofText source.toList, l.shape.isOpen = false)
    (hstops : Line.EndWithStops (LineIndex.ofText source.toList).starts
      (Occurrence.ofLexemes 0 (Lexeme.ofText source.toList))) :
    let index := LineIndex.ofText source.toList
    let whole := tokenize source
    let byLine := tokenizeByLine source
    let context := (TokenStream.openAt source 0 false).lastContext
    byLine.significant = whole.significant ∧
    byLine.tokens.filter (·.isTrivia) =
      (whole.tokens.filter (·.isTrivia)).flatMap (Token.cutAt index index.starts) ∧
    byLine.tokens = whole.tokens.flatMap (Token.cutAt index index.starts) ∧
    whole.diagnostics = byLine.diagnostics ++
      context.unclosed?.toList.map (fun issue => ⟨.point index.size, .unbalanced issue⟩) ∧
    (Line.tokenizeFrom 0 1 .initial (Text.lines source.toList)).2.context = context := by
  intro index whole byLine context
  obtain ⟨hcontext, hwhole⟩ := tokenize_eq_run source
  change whole = _ at hwhole
  have haligned : Line.Aligned source.toList [] (Text.lines source.toList) .initial
      ⟨.initial, 0⟩ := by
    refine ⟨rfl, ?_, rfl, Nat.one_pos, ?_, ?_⟩
    · simp [LineState.initial]
    · rw [Text.flatten_lines]
      exact hclosed
    · rw [Text.flatten_lines]
      exact hstops
  obtain ⟨hemission, hfinal⟩ := Line.tokenizeFrom_eq_run (Text.lined_lines source.toList) haligned
  have hresume : Line.resume LineState.initial.carry source.toList = Lexeme.ofText source.toList :=
    rfl
  rw [Text.flatten_lines, hresume, List.flatten_nil, Text.byteSize_nil, List.length_nil,
    Nat.zero_add] at hemission hfinal
  have hbyLine : byLine =
      ⟨(Line.tokenizeFrom 0 1 .initial (Text.lines source.toList)).1.tokens,
        (Line.tokenizeFrom 0 1 .initial (Text.lines source.toList)).1.diagnostics, false⟩ := rfl
  rw [hemission] at hbyLine
  have htokens : byLine.tokens = whole.tokens.flatMap (Token.cutAt index index.starts) := by
    rw [hbyLine, hwhole]
    rfl
  obtain ⟨hsignificant, htrivia⟩ := Token.filter_flatMap_cutAt index index.starts whole.tokens
  rw [← htokens] at hsignificant htrivia
  refine ⟨hsignificant, htrivia, htokens, ?_, hfinal.trans hcontext.symm⟩
  rw [hbyLine, hwhole]
  rfl

/-- A lookahead that stays on its line, a comment over two lines, and braces left open. -/
theorem tokenizeByLine_agrees_comment :
    let source := "a<b>c;/* \n */\n\x7b"
    let cs := source.toList
    ((∀ l ∈ Lexeme.ofText cs, l.shape.isOpen = false) ∧
      Line.EndWithStops (LineIndex.ofText cs).starts
        (Occurrence.ofLexemes 0 (Lexeme.ofText cs))) ∧
    (tokenizeByLine source).significant = (tokenize source).significant ∧
    (tokenizeByLine source).tokens = (tokenize source).tokens.flatMap
      (Token.cutAt (LineIndex.ofText cs) (LineIndex.ofText cs).starts) := by
  intro source cs
  have hclosed : ∀ l ∈ Lexeme.ofText cs, l.shape.isOpen = false := by decide +kernel
  have hstops : Line.EndWithStops (LineIndex.ofText cs).starts
      (Occurrence.ofLexemes 0 (Lexeme.ofText cs)) := by decide +kernel
  have hagree := tokenizeByLine_agrees source hclosed hstops
  exact ⟨⟨hclosed, hstops⟩, hagree.1, hagree.2.2.1⟩

end JavaHighlight
