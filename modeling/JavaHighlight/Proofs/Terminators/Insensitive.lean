import JavaHighlight.Proofs.Restart.Relocated
import JavaHighlight.Proofs.Terminators.Endings
import JavaHighlight.Proofs.Tiling.Scan

/-!
# Terminators do not matter

A line is tokenized alike without its terminator and with each of the terminators
(`tokenizeLine_append_terminator`): the state behind it, the diagnostics and the significant
tokens are the same. Only the piece of a text block that stays open covers the terminator too. Up
to the last lexeme the two readings are those of the same lexemes at the same place
(`Line.run_front`). What a text block leaves in the context is settled by its first piece, so it
does not matter whether an empty line has a piece of it (`Line.settled_stateBehind`).
-/

namespace JavaHighlight

open Text (terminators isLineEnd)

def Emission.significant (emission : Emission) : List Token :=
  emission.tokens.filter (!·.isTrivia)

def LineOutput.significant (output : LineOutput) : List Token :=
  output.tokens.filter (!·.isTrivia)

def LineOutput.emission (output : LineOutput) : Emission :=
  ⟨output.tokens, output.diagnostics⟩

/-- The token that starts where this one does and ends somewhere else. -/
def Token.endingAt (stop : Nat) (token : Token) : Token :=
  { token with span := ⟨token.span.start, stop⟩ }

theorem Emission.significant_append (a b : Emission) :
    (a ++ b).significant = a.significant ++ b.significant :=
  List.filter_append ..

theorem Emission.relocate_zero (emission : Emission) : emission.relocate 0 id = emission := by
  have htoken : Token.relocate 0 id = id := rfl
  have hdiagnostic : Line.liftDiagnostic 0 = id := rfl
  unfold relocate
  rw [htoken, hdiagnostic, List.map_id, List.map_id]

/-! ## The last lexemes -/

namespace Progress

/-- What is trivia in a line emits trivia and leaves no trace. -/
theorem run_of_triviaInLine {ls : List Lexeme} (h : ∀ l ∈ ls, l.TriviaInLine) (index : LineIndex)
    (progress : Progress) (start : Nat) :
    (progress.run .line index (Occurrence.ofLexemes start ls)).1.significant = [] ∧
      (progress.run .line index (Occurrence.ofLexemes start ls)).1.diagnostics = [] ∧
      (progress.run .line index (Occurrence.ofLexemes start ls)).2 = progress := by
  induction ls generalizing start with
  | nil => exact ⟨rfl, rfl, rfl⟩
  | cons l ls ih =>
    rw [List.forall_mem_cons] at h
    obtain ⟨⟨kind, htrivia, hreading⟩, hls⟩ := h
    obtain ⟨hsignificant, hdiagnostics, hlast⟩ := ih hls (start + l.length)
    rw [Occurrence.ofLexemes, run_cons, emit_of_plain htrivia (hreading _ _)]
    refine ⟨?_, hdiagnostics, hlast⟩
    rw [Emission.significant_append, hsignificant, List.append_nil]
    exact List.filter_cons_of_neg (by simp [Token.isTrivia, htrivia])

/-- The token of a text block that lacks its end. -/
def textBlockPiece (index : LineIndex) (start stop : Nat) (progress : Progress) : Token :=
  ⟨.textBlock, ⟨start, stop⟩, index.position start,
    { Flags.none with lineStart := (index.position start).line ≠ progress.lastLine }⟩

theorem run_textBlock (index : LineIndex) (progress : Progress) (start : Nat) (x : List Char) :
    let run := progress.run .line index
      (Occurrence.ofLexemes start [⟨.unterminatedTextBlock, x⟩])
    run.1 = ⟨[progress.textBlockPiece index start (start + Text.byteSize x)], []⟩ ∧
      run.2.context = progress.context.observe .textBlock (String.ofList x) false :=
  ⟨rfl, rfl⟩

theorem textBlockPiece_of_level {iw ip : LineIndex} {size : Nat} {whole part : Progress}
    (hindex : iw.Relocates ip 0 size id) (h : Level iw ip 0 size whole part) (start : Nat)
    (hstart : start < size) (stop stop' : Nat) :
    whole.textBlockPiece iw start stop' =
      (part.textBlockPiece ip start stop).endingAt stop' := by
  have hposition := hindex.position start hstart
  have hline := h.lastLine start hstart
  rw [Nat.zero_add] at hposition hline
  unfold textBlockPiece Token.endingAt
  dsimp only
  rw [decide_eq_decide.mpr (not_congr hline), hposition]
  rfl

end Progress

/-! ## The rest of a line -/

theorem LineIndex.relocates_terminator {terminator : String} (h : terminator ∈ terminators)
    {cs : List Char} (hcs : ∀ c ∈ cs, isLineEnd c = false) :
    (ofText (cs ++ terminator.toList)).Relocates (ofText cs) 0 (Text.byteSize cs) id := by
  have hbare : Text.lines cs = [] ++ cs :: [] := Text.lines_of_unterminated hcs
  have hended : Text.lines (cs ++ terminator.toList) =
      [] ++ (cs ++ terminator.toList) :: [[]] := (Text.terminated_append h hcs).lines_eq
  have hposition : ∀ o < Text.byteSize cs,
      (ofText (cs ++ terminator.toList)).position (0 + o) = ⟨1, o + 1⟩ ∧
        (ofText cs).position o = ⟨1, o + 1⟩ := by
    intro o ho
    have hlt : o < Text.byteSize (cs ++ terminator.toList) := by
      rw [Text.byteSize_append]
      omega
    have hwhole := position_of_line hended hlt
    have hpart := position_of_line hbare ho
    rw [List.flatten_nil, Text.byteSize_nil] at hwhole hpart
    rw [Nat.zero_add] at hpart
    exact ⟨hwhole, hpart⟩
  refine ⟨fun o ho => ?_, fun o ho p hp => ?_⟩
  · rw [(hposition o ho).1, (hposition o ho).2]
    rfl
  · rw [(hposition o ho).1, (hposition o ho).2, (hposition p hp).1, (hposition p hp).2]

theorem Progress.level_of_relocates {iw ip : LineIndex} {size : Nat}
    (hindex : iw.Relocates ip 0 size id) (progress : Progress) :
    Level iw ip 0 size progress progress where
  context := rfl
  lastLine o ho := by
    rw [hindex.position o ho]
    rfl

namespace Line

variable {iw ip : LineIndex} {size : Nat} {terminator : String}

theorem run_front (hindex : iw.Relocates ip 0 size id) (progress : Progress)
    {front a b : List Lexeme} (hfront : ∀ l ∈ front, l.InText ∧ 0 < l.length) (start : Nat)
    (hsize : start + Lexeme.totalLength front ≤ size)
    (hlooks : List.Forall₂ Lexeme.LooksLike b a) :
    let ended := progress.run .line iw (Occurrence.before b start front)
    let bare := progress.run .line ip (Occurrence.before a start front)
    ended.1 = bare.1 ∧ Progress.Level iw ip 0 size ended.2 bare.2 := by
  have hrelocated := Occurrence.relocated_before hlooks 0 start front
  rw [Nat.zero_add] at hrelocated
  have hrun := Progress.run_relocate hindex (Progress.level_of_relocates hindex progress) .line
    hrelocated fun o ho => by
      obtain ⟨hl, hpos, hstop⟩ := Occurrence.within_of_mem_before hfront ho
      exact ⟨hl, hpos, Nat.le_trans hstop hsize⟩
  rwa [Emission.relocate_zero] at hrun

theorem run_append_trivia (hindex : iw.Relocates ip 0 size id) (progress : Progress)
    {front a b : List Lexeme} (hfront : ∀ l ∈ front, l.InText ∧ 0 < l.length) (start : Nat)
    (hsize : start + Lexeme.totalLength front ≤ size) (htrivia : ∀ l ∈ a ++ b, l.TriviaInLine)
    (hlooks : List.Forall₂ Lexeme.LooksLike (b.filter (·.isSignificant))
      (a.filter (·.isSignificant))) :
    let bare := progress.run .line ip (Occurrence.ofLexemes start (front ++ a))
    let ended := progress.run .line iw (Occurrence.ofLexemes start (front ++ b))
    ended.2.context = bare.2.context ∧ ended.1.diagnostics = bare.1.diagnostics ∧
      ended.1.significant = bare.1.significant := by
  intro bare ended
  rw [List.forall_mem_append] at htrivia
  obtain ⟨hsame, hlevel⟩ := run_front hindex progress hfront start hsize hlooks
  obtain ⟨hbare, hnone, hlast⟩ := Progress.run_of_triviaInLine htrivia.1 ip
    (progress.run .line ip (Occurrence.before (a.filter (·.isSignificant)) start front)).2
    (start + Lexeme.totalLength front)
  obtain ⟨hended, hnone', hlast'⟩ := Progress.run_of_triviaInLine htrivia.2 iw
    (progress.run .line iw (Occurrence.before (b.filter (·.isSignificant)) start front)).2
    (start + Lexeme.totalLength front)
  unfold bare ended
  rw [Occurrence.ofLexemes_append, Occurrence.ofLexemes_append, Progress.run_append,
    Progress.run_append]
  dsimp only
  rw [hlast, hlast', hsame]
  refine ⟨hlevel.context, ?_, ?_⟩
  · rw [Emission.diagnostics_append, Emission.diagnostics_append, hnone, hnone']
  · rw [Emission.significant_append, Emission.significant_append, hbare, hended]

/-- Lexemes are read alike in front of a text block that lacks its end, and the piece of it ends
where the text does. -/
theorem run_append_textBlock (hindex : iw.Relocates ip 0 size id) (progress : Progress)
    {front : List Lexeme} (hfront : ∀ l ∈ front, l.InText ∧ 0 < l.length) (start : Nat)
    {x : List Char} (hx : x ≠ [])
    (hsize : start + Lexeme.totalLength front + Text.byteSize x = size) (y : List Char) :
    let bare := progress.run .line ip
      (Occurrence.ofLexemes start (front ++ [⟨.unterminatedTextBlock, x⟩]))
    let ended := progress.run .line iw
      (Occurrence.ofLexemes start (front ++ [⟨.unterminatedTextBlock, x ++ y⟩]))
    ended.2.context = bare.2.context ∧ ended.1.diagnostics = bare.1.diagnostics ∧
      ∃ before piece, piece.kind = .textBlock ∧ piece.span.start ≤ piece.span.stop ∧
        piece.span.stop = size ∧ bare.1.significant = before ++ [piece] ∧
        ended.1.significant = before ++ [piece.endingAt (size + Text.byteSize y)] := by
  intro bare ended
  have hxpos := Text.byteSize_pos hx
  have hlooks : List.Forall₂ Lexeme.LooksLike
      ([⟨.unterminatedTextBlock, x ++ y⟩].filter (·.isSignificant))
      ([⟨.unterminatedTextBlock, x⟩].filter (·.isSignificant)) :=
    .cons ⟨rfl, fun hword => by cases hword⟩ .nil
  obtain ⟨hsame, hlevel⟩ := run_front hindex progress hfront start (by omega) hlooks
  unfold bare ended
  rw [Occurrence.ofLexemes_append, Occurrence.ofLexemes_append, Progress.run_append,
    Progress.run_append]
  generalize progress.run .line iw (Occurrence.before _ start front) = whole at hsame hlevel ⊢
  generalize progress.run .line ip (Occurrence.before _ start front) = part at hsame hlevel ⊢
  let last := start + Lexeme.totalLength front
  obtain ⟨hbarelast, hbarecontext⟩ := Progress.run_textBlock ip part.2 last x
  obtain ⟨hendedlast, hendedcontext⟩ := Progress.run_textBlock iw whole.2 last (x ++ y)
  have hpiece := Progress.textBlockPiece_of_level hindex hlevel last (by omega)
    (last + Text.byteSize x) (last + Text.byteSize (x ++ y))
  have hkind : TokenKind.textBlock ∉ TokenKind.worded := by decide
  dsimp only
  rw [hbarelast, hendedlast, hbarecontext, hendedcontext, hpiece, hlevel.context, hsame,
    Text.byteSize_append, ← Nat.add_assoc, hsize]
  refine ⟨Context.observe_eq_of_not_worded hkind _ _ _ _, rfl, part.1.significant,
    part.2.textBlockPiece ip last size, rfl, ?_, rfl, ?_, ?_⟩
  · show last ≤ size
    omega
  · exact Emission.significant_append _ _
  · exact Emission.significant_append _ _

/-- What is emitted for `size` bytes without a terminator and for `full` bytes with it: the same but
for the end of a text block that stays open. There is no piece of it in no bytes. -/
structure SameButEnd (carry : Option Construct) (size full : Nat) (bare ended : Emission) :
    Prop where
  diagnostics : ended.diagnostics = bare.diagnostics
  significant : carry ≠ some .textBlock → ended.significant = bare.significant
  textBlock : carry = some .textBlock → ∃ front piece, piece.kind = .textBlock ∧
    piece.span.start ≤ piece.span.stop ∧ piece.span.stop = size ∧
    bare.significant = front ++ (if size = 0 then [] else [piece]) ∧
    ended.significant = front ++ [piece.endingAt full]

theorem SameButEnd.prepend {carry : Option Construct} {full : Nat} {bare ended : Emission}
    (h : SameButEnd carry size full bare ended) (front : List Token) :
    SameButEnd carry size full (⟨front, []⟩ ++ bare) (⟨front, []⟩ ++ ended) where
  diagnostics := h.diagnostics
  significant hblock := by
    rw [Emission.significant_append, Emission.significant_append, h.significant hblock]
  textBlock hblock := by
    obtain ⟨before, piece, hkind, hspan, hstop, hbare, hended⟩ := h.textBlock hblock
    refine ⟨front.filter (!·.isTrivia) ++ before, piece, hkind, hspan, hstop, ?_, ?_⟩
    · rw [Emission.significant_append, hbare, List.append_assoc]
      rfl
    · rw [Emission.significant_append, hended, List.append_assoc]
      rfl

/-- The rest of a line, in front of which nothing is open, is read alike with a terminator. -/
theorem run_append_terminator (h : terminator ∈ terminators) (hindex : iw.Relocates ip 0 size id)
    (progress : Progress) {cs : List Char} {start : Nat} (hsize : start + Text.byteSize cs = size) :
    let bare := progress.run .line ip (Occurrence.ofLexemes start (Lexeme.ofText cs))
    let ended := progress.run .line iw
      (Occurrence.ofLexemes start (Lexeme.ofText (cs ++ terminator.toList)))
    ended.2.context = bare.2.context ∧
      SameButEnd (carryBehind none cs) size (size + Text.byteSize terminator.toList) bare.1
        ended.1 := by
  intro bare ended
  have hlexemes : ∀ l ∈ Lexeme.ofText cs, l.InText ∧ 0 < l.length := fun l hl =>
    ⟨Lexeme.inText_of_mem_ofText hl, Lexeme.length_pos_of_mem_ofText hl⟩
  have htotal := Lexeme.totalLength_ofText cs
  unfold bare ended
  cases ending h cs with
  | trivia front a b hcarry hbare hended htrivia hlooks =>
    rw [hbare, List.forall_mem_append] at hlexemes
    rw [hbare, Lexeme.totalLength_append] at htotal
    rw [hbare, hended]
    obtain ⟨hcontext, hdiagnostics, hsignificant⟩ :=
      run_append_trivia hindex progress hlexemes.1 start (by omega) htrivia hlooks
    exact ⟨hcontext, hdiagnostics, fun _ => hsignificant, fun hblock => absurd hblock hcarry⟩
  | textBlock front x hcarry hbare hended =>
    have hx : x ≠ [] := Lexeme.text_ne_nil_of_mem_ofText (hbare ▸ List.mem_concat_self)
    have hxpos := Text.byteSize_pos hx
    have hlength : (⟨.unterminatedTextBlock, x⟩ : Lexeme).length = Text.byteSize x := rfl
    rw [hbare, List.forall_mem_append] at hlexemes
    rw [hbare, Lexeme.totalLength_append, Lexeme.totalLength_singleton, hlength] at htotal
    rw [hbare, hended]
    obtain ⟨hcontext, hdiagnostics, before, piece, hkind, hspan, hstop, hbefore, hbefore'⟩ :=
      run_append_textBlock hindex progress hlexemes.1 start hx (by omega) terminator.toList
    refine ⟨hcontext, hdiagnostics, fun hblock => absurd hcarry hblock, fun _ => ?_⟩
    refine ⟨before, piece, hkind, hspan, hstop, ?_, hbefore'⟩
    rw [if_neg (by omega)]
    exact hbefore

end Line

/-! ## What a text block leaves in the context -/

/-- The second piece of a text block changes nothing in the context. -/
theorem Context.observe_textBlock_observe (ctx : Context) (a b : String) :
    (ctx.observe .textBlock a false).observe .textBlock b false =
      ctx.observe .textBlock a false := by
  have hobserve : ∀ (c : Context) text, c.observe .textBlock text false =
      { c with
        deepest := max c.deepest c.regions.length
        typeNameAwaited := false
        annotationName := .absent
        constantReady := c.constantReadyAfter .textBlock
        anonymousBodyReady := false
        last := some .textBlock
        lastWasModifier := false } := fun _ _ => rfl
  have hready : (ctx.observe .textBlock a false).constantReadyAfter .textBlock =
      ctx.constantReadyAfter .textBlock := by
    show (if ctx.inConstants then false else ctx.constantReadyAfter .textBlock) = _
    unfold constantReadyAfter
    split <;> rfl
  have hdeepest : max (max ctx.deepest ctx.regions.length) ctx.regions.length =
      max ctx.deepest ctx.regions.length := by
    omega
  rw [hobserve _ b, hready, hobserve ctx a, hdeepest]

namespace Line

/-- If a text block is open, more pieces of it change nothing in the context. -/
def Settled (state : LineState) : Prop :=
  state.carry = some .textBlock →
    ∀ text, state.context.observe .textBlock text false = state.context

theorem Settled.contextOfRest_eq {state : LineState} (h : Settled state) (cs : List Char) :
    contextOfRest state cs = state.context := by
  by_cases hcarry : state.carry = some .textBlock
  · unfold contextOfRest
    rw [hcarry]
    show contextAfter .textBlock _ state.context = _
    unfold contextAfter
    split
    · rfl
    · exact h hcarry _
  · exact Line.contextOfRest_eq hcarry cs

/-- A text block that is open behind a text is the last thing that was read. -/
theorem context_run_of_textBlock {cs : List Char} (h : carryBehind none cs = some .textBlock)
    (index : LineIndex) (progress : Progress) (start : Nat) :
    ∃ (ctx : Context) (text : String),
      (progress.run .line index (Occurrence.ofLexemes start (Lexeme.ofText cs))).2.context =
        ctx.observe .textBlock text false := by
  rw [carryBehind_none_eq] at h
  obtain ⟨l, hl, hopen⟩ := Option.bind_eq_some_iff.mp h
  obtain ⟨front, hfront⟩ := List.getLast?_eq_some_iff.mp hl
  obtain ⟨shape, text⟩ := l
  obtain rfl : shape = .unterminatedTextBlock := Construct.shape_of_ofLexeme? hopen
  rw [hfront, Occurrence.ofLexemes_append, Progress.run_append]
  exact ⟨_, _, (Progress.run_textBlock index _ _ text).2⟩

/-- A line all of which goes on with an open construct leaves the state as it is. -/
theorem tokenizeLine_of_staysOpen {state : LineState} (h : Settled state) {line : String}
    (hstays : staysOpen state.carry line.toList = true) :
    tokenizeLine line state = ⟨carriedTokens state.carry line.toList, [], state⟩ := by
  have hrun : run state line.toList = (.empty, ⟨state.context, 0⟩) := by
    unfold run occurrences
    rw [rest_of_staysOpen hstays, h.contextOfRest_eq]
    rfl
  rw [tokenizeLine_eq, hrun, carryBehind, if_pos hstays]
  simp only [Emission.empty, List.append_nil]

theorem settled_tokenizeLine {state : LineState} (h : Settled state) (line : String) :
    Settled (tokenizeLine line state).state := by
  cases hstays : staysOpen state.carry line.toList with
  | true =>
    rw [tokenizeLine_of_staysOpen h hstays]
    exact h
  | false =>
    rw [tokenizeLine_eq]
    intro hcarry text
    dsimp only at hcarry ⊢
    rw [carryBehind, if_neg (Bool.eq_false_iff.mp hstays)] at hcarry
    obtain ⟨ctx, text', hcontext⟩ := context_run_of_textBlock hcarry (LineIndex.ofText line.toList)
      ⟨contextOfRest state line.toList, 0⟩
      (Text.byteSize (carriedPart state.carry line.toList))
    have hrun : (run state line.toList).2.context = ctx.observe .textBlock text' false := hcontext
    rw [hrun, Context.observe_textBlock_observe]

theorem settled_stateBehind (lines : List String) : Settled (stateBehind lines) :=
  stateBehind_of_kept (P := Settled) (fun h => by cases h)
    (fun _ line h => settled_tokenizeLine h line) lines

/-! ## Lines -/

variable {terminator : String} {state : LineState} {cs : List Char}

/-- A line of which something is left behind what goes on with an open construct. -/
theorem run_of_not_staysOpen (h : terminator ∈ terminators)
    (hcs : ∀ c ∈ cs, isLineEnd c = false) (hstays : staysOpen state.carry cs = false) :
    carriedTokens state.carry (cs ++ terminator.toList) = carriedTokens state.carry cs ∧
      (run state (cs ++ terminator.toList)).2.context = (run state cs).2.context ∧
      SameButEnd (carryBehind state.carry cs) (Text.byteSize cs)
        (Text.byteSize cs + Text.byteSize terminator.toList) (run state cs).1
        (run state (cs ++ terminator.toList)).1 := by
  have hborder := Text.lineBorder_of_mem_terminators h cs
  obtain ⟨-, hpart, hrest⟩ := append_of_not_staysOpen hborder hstays
  have hcontext : contextOfRest state (cs ++ terminator.toList) = contextOfRest state cs := by
    unfold contextOfRest
    rw [hpart]
  obtain ⟨hlast, hsame⟩ := run_append_terminator h (LineIndex.relocates_terminator h hcs)
    ⟨contextOfRest state cs, 0⟩ (byteSize_parts state.carry cs)
  have hcarry : carryBehind state.carry cs = carryBehind none (rest state.carry cs) :=
    if_neg (Bool.eq_false_iff.mp hstays)
  refine ⟨?_, ?_, ?_⟩
  · unfold carriedTokens
    rw [hpart]
  · unfold run occurrences
    rw [hcontext, hpart, hrest]
    exact hlast
  · unfold run occurrences
    rw [hcontext, hpart, hrest, hcarry]
    exact hsame

theorem significant_continuation {construct : Construct} (h : construct ≠ .textBlock)
    (stop : Nat) : (continuation construct stop).filter (!·.isTrivia) = [] := by
  unfold continuation
  split
  · rfl
  · exact List.filter_cons_of_neg (by simp [Token.isTrivia, Construct.isTrivia_kind h])

theorem significant_of_comment (h : Settled state) {line : String}
    (hstays : staysOpen state.carry line.toList = true) (hcarry : state.carry ≠ some .textBlock) :
    (tokenizeLine line state).significant = [] := by
  rw [tokenizeLine_of_staysOpen h hstays]
  show (carriedTokens state.carry line.toList).filter _ = []
  unfold carriedTokens
  cases hopen : state.carry with
  | none => rfl
  | some construct =>
    exact significant_continuation (fun hblock => hcarry (hblock ▸ hopen)) _

/-- A line in all of which a text block stays open is one piece of it, unless it is empty. -/
theorem significant_of_textBlock (h : Settled state) {line : String}
    (hstays : staysOpen state.carry line.toList = true) (hcarry : state.carry = some .textBlock) :
    (tokenizeLine line state).significant =
      if line.utf8ByteSize = 0 then []
      else [⟨.textBlock, ⟨0, line.utf8ByteSize⟩, ⟨1, 1⟩, .none⟩] := by
  rw [tokenizeLine_of_staysOpen h hstays]
  show (carriedTokens state.carry line.toList).filter _ = _
  unfold carriedTokens continuation
  rw [carriedPart_of_staysOpen hstays, hcarry, Text.byteSize_toList]
  dsimp only
  split <;> rfl

/-! ## Lines with and without a terminator -/

variable {text : String}

theorem sameButEnd_of_not_staysOpen (h : terminator ∈ terminators)
    (htext : ∀ c ∈ text.toList, isLineEnd c = false)
    (hstays : staysOpen state.carry text.toList = false) :
    let bare := tokenizeLine text state
    let ended := tokenizeLine (text ++ terminator) state
    ended.state = bare.state ∧
      SameButEnd bare.state.carry text.utf8ByteSize (text ++ terminator).utf8ByteSize
        bare.emission ended.emission := by
  intro bare ended
  obtain ⟨hcarried, hcontext, hsame⟩ := run_of_not_staysOpen h htext hstays
  have hbare : bare = _ := tokenizeLine_eq text state
  have hended : ended = _ := tokenizeLine_eq (text ++ terminator) state
  rw [String.toList_append, hcarried, hcontext, carryBehind_append_terminator h] at hended
  rw [Text.byteSize_toList, Text.byteSize_toList, ← String.utf8ByteSize_append] at hsame
  rw [hbare, hended]
  exact ⟨rfl, hsame.prepend (carriedTokens state.carry text.toList)⟩

theorem sameButEnd_of_staysOpen (h : terminator ∈ terminators) (hsettled : Settled state)
    (hstays : staysOpen state.carry text.toList = true) :
    let bare := tokenizeLine text state
    let ended := tokenizeLine (text ++ terminator) state
    ended.state = bare.state ∧
      SameButEnd bare.state.carry text.utf8ByteSize (text ++ terminator).utf8ByteSize
        bare.emission ended.emission := by
  intro bare ended
  have hstays' : staysOpen state.carry (text ++ terminator).toList = true := by
    rw [String.toList_append]
    exact staysOpen_append_terminator h hstays
  have hbare : bare = _ := tokenizeLine_of_staysOpen hsettled hstays
  have hended : ended = _ := tokenizeLine_of_staysOpen hsettled hstays'
  have hstate : bare.state = state := congrArg (·.state) hbare
  rw [hstate]
  refine ⟨congrArg (·.state) hended, by rw [hbare, hended]; rfl, fun hblock => ?_, fun hblock => ?_⟩
  · exact (significant_of_comment hsettled hstays' hblock).trans
      (significant_of_comment hsettled hstays hblock).symm
  · have key : ∀ terminator ∈ terminators, terminator.utf8ByteSize ≠ 0 := by decide
    have hfull : (text ++ terminator).utf8ByteSize ≠ 0 := by
      have hterminator := key terminator h
      rw [String.utf8ByteSize_append]
      omega
    refine ⟨[], _, rfl, Nat.zero_le _, rfl, significant_of_textBlock hsettled hstays hblock, ?_⟩
    exact (significant_of_textBlock hsettled hstays' hblock).trans (if_neg hfull)

end Line

/-- **Terminators do not matter.** In a state that any earlier lines lead to, a line gives the
same state, the same diagnostics and the same significant tokens without its terminator and with
it. Only the piece of a text block that is open at the end of the line covers the terminator; an
empty line without a terminator has no such piece. -/
theorem tokenizeLine_append_terminator (earlier : List String) {text terminator : String}
    (htext : ∀ c ∈ text.toList, isLineEnd c = false) (h : terminator ∈ terminators) :
    let state := Line.stateBehind earlier
    let bare := tokenizeLine text state
    let ended := tokenizeLine (text ++ terminator) state
    ended.state = bare.state ∧ ended.diagnostics = bare.diagnostics ∧
    (bare.state.carry ≠ some .textBlock → ended.significant = bare.significant) ∧
    (bare.state.carry = some .textBlock → ∃ front piece, piece.kind = .textBlock ∧
      piece.span.start ≤ piece.span.stop ∧ piece.span.stop = text.utf8ByteSize ∧
      bare.significant = front ++ (if text = "" then [] else [piece]) ∧
      ended.significant = front ++ [piece.endingAt (text ++ terminator).utf8ByteSize]) := by
  intro state bare ended
  obtain ⟨hstate, hsame⟩ : ended.state = bare.state ∧
      Line.SameButEnd bare.state.carry text.utf8ByteSize (text ++ terminator).utf8ByteSize
        bare.emission ended.emission := by
    cases hstays : Line.staysOpen state.carry text.toList with
    | false => exact Line.sameButEnd_of_not_staysOpen h htext hstays
    | true => exact Line.sameButEnd_of_staysOpen h (Line.settled_stateBehind earlier) hstays
  refine ⟨hstate, hsame.diagnostics, hsame.significant, fun hblock => ?_⟩
  obtain ⟨front, piece, hkind, hspan, hstop, hbare, hended⟩ := hsame.textBlock hblock
  refine ⟨front, piece, hkind, hspan, hstop, hbare.trans ?_, hended⟩
  rw [if_congr String.utf8ByteSize_eq_zero_iff rfl rfl]

/-- The second line of a text block, which is empty and has a terminator. -/
theorem tokenizeLine_append_terminator_in_textBlock :
    (∀ c ∈ "".toList, isLineEnd c = false) ∧ "\r\n" ∈ terminators ∧
    let state := Line.stateBehind ["x = \"\"\"\n"]
    let bare := tokenizeLine "" state
    let ended := tokenizeLine ("" ++ "\r\n") state
    ended.state = bare.state ∧ bare.state.carry = some .textBlock ∧
    ∃ front, ∃ piece : Token, piece.kind = .textBlock ∧
      piece.span.start ≤ piece.span.stop ∧ piece.span.stop = 0 ∧
      bare.significant = front ∧ ended.significant = front ++ [piece.endingAt 2] := by
  have htext : ∀ c ∈ "".toList, isLineEnd c = false := by simp
  have hterminator : "\r\n" ∈ terminators := by decide
  obtain ⟨hstate, -, -, hblock⟩ :=
    tokenizeLine_append_terminator ["x = \"\"\"\n"] htext hterminator
  have hopen : (tokenizeLine "" (Line.stateBehind ["x = \"\"\"\n"])).state.carry =
      some .textBlock := by decide +kernel
  obtain ⟨front, piece, hkind, hspan, hstop, hbare, hended⟩ := hblock hopen
  rw [if_pos rfl, List.append_nil] at hbare
  exact ⟨htext, hterminator, hstate, hopen, front, piece, hkind, hspan, hstop, hbare, hended⟩

end JavaHighlight
