import JavaHighlight.Proofs.Faults.Readings
import JavaHighlight.Proofs.LineReading
import JavaHighlight.Proofs.Regions
import JavaHighlight.Proofs.Tiling.Lossless

/-!
# Diagnostics and marked tokens

The marked tokens of an emission and its diagnostics correspond one to one, in order
(`Emission.Reported`). This holds for a piece that is sound in itself, which is marked if it
fails to close what is innermost, and for a faulty lexeme, and it is kept when emissions are put
together. So it holds for whole sources and for single lines (`faultsReported`).
-/

namespace JavaHighlight

/-- A diagnostic reports a token: it has the span of the token, and tokens of this kind and text
are marked for its problem. -/
def Diagnostic.Reports (source : String) (token : Token) (d : Diagnostic) : Prop :=
  d.span = token.span ∧ d.problem.Concerns token.kind (token.text source).toList

/-- The diagnostics report the marked tokens one by one, and tokens of a faulty kind are
marked. -/
structure Emission.Reported (source : String) (e : Emission) : Prop where
  matched : List.Forall₂ (Diagnostic.Reports source)
    (e.tokens.filter (·.flags.error)) e.diagnostics
  marked : ∀ t ∈ e.tokens, t.kind ∈ Reading.faultyKinds → t.flags.error = true

theorem Emission.reported_empty (source : String) : Emission.empty.Reported source :=
  ⟨.nil, fun _ h => absurd h List.not_mem_nil⟩

theorem Emission.Reported.append {source : String} {a b : Emission} (ha : a.Reported source)
    (hb : b.Reported source) : (a ++ b).Reported source := by
  refine ⟨?_, fun token htoken hkind => ?_⟩
  · rw [tokens_append, diagnostics_append, List.filter_append]
    exact List.rel_append ha.matched hb.matched
  · rcases List.mem_append.mp htoken with htoken | htoken
    · exact ha.marked token htoken hkind
    · exact hb.marked token htoken hkind

/-! ## Closing brackets -/

theorem Context.mem_of_closes? {kind : TokenKind} {bracket : Bracket}
    (h : closes? kind = some bracket) :
    (kind, bracket.closer) ∈ [(TokenKind.rightBrace, '\x7d'), (.rightParen, ')')] := by
  unfold closes? at h
  split at h
  · cases h; decide
  · cases h; decide
  · cases h

theorem Reading.text_of_closes? {mode : Mode} {ctx : Context} {l : Lexeme} {ahead : List Lexeme}
    {cs : List Char} (hl : l ∈ Lexeme.ofText cs) {piece : Piece}
    (hpiece : piece ∈ (ofLexeme mode ctx l ahead).pieces) {bracket : Bracket}
    (h : Context.closes? piece.kind = some bracket) : piece.text = [bracket.closer] := by
  obtain ⟨s, hs, hkind, hangles⟩ :=
    Shape.eq_symbol_of_delimiter (kind_mem_kinds hpiece) (Context.mem_delimiters_of_closes? h)
  obtain ⟨kind, -, flags, opensLambda, hpieces⟩ :=
    isOnePiece_ofLexeme (by rw [hs]; exact hangles)
      (Lexeme.shape_ne_endOfInput_of_mem_ofText hl) mode ctx ahead
  rw [hpieces, List.mem_singleton] at hpiece
  have htext : piece.text = s.spelling.toList := by
    rw [hpiece, ← Lexeme.text_of_symbol hl hs]
  have key : ∀ s ∈ Symbol.all, ∀ bracket ∈ Context.closes? (symbolKind s),
      s.spelling.toList = [bracket.closer] := by decide
  rw [htext]
  exact key s s.mem_all bracket (hkind ▸ h)

namespace Progress

variable {source : String} {index : LineIndex} {start : Nat} {progress : Progress}

/-- A piece that is sound in itself is reported if it fails to close what is innermost. -/
theorem reported_emitPiece {piece : Piece} {token : Token}
    (htoken : (progress.emitPiece index start piece).1.tokens = [token])
    (hmark : piece.flags.error = false) (hkind : piece.kind ∉ Reading.faultyKinds)
    (hclose : ∀ bracket, Context.closes? piece.kind = some bracket →
      piece.text = [bracket.closer])
    (hemits : piece.Emits source.toList token) :
    (progress.emitPiece index start piece).1.Reported source := by
  have herror : token.flags.error = (progress.context.issue? piece.kind).isSome := by
    rw [← (List.cons.inj htoken).1]
    show (piece.flags.error || _) = _
    rw [hmark, Bool.false_or]
  have hspan : token.span = ⟨start, start + piece.length⟩ := by
    rw [← (List.cons.inj htoken).1]
  refine ⟨?_, fun other hother h => ?_⟩
  · rw [htoken]
    show List.Forall₂ _ _ ((progress.context.issue? piece.kind).toList.map _)
    cases hissue : progress.context.issue? piece.kind with
    | none =>
      rw [List.filter_cons, herror, hissue]
      exact .nil
    | some issue =>
      rw [List.filter_cons, herror, hissue]
      refine .cons ⟨hspan.symm, ?_⟩ .nil
      obtain ⟨bracket, hbracket, hcases⟩ := Context.issue?_eq_some hissue
      have htext : (token.text source).toList = [bracket.closer] := by
        rw [hemits.2.text_eq, String.toList_ofList, hclose bracket hbracket]
      have hmem := Context.mem_of_closes? hbracket
      rw [htext, hemits.1]
      rcases hcases with ⟨-, rfl⟩ | ⟨region, -, -, rfl⟩
      · exact .unexpected hmem
      · exact .mismatched region.closer hmem
  · rw [htoken, List.mem_singleton] at hother
    rw [hother, hemits.1] at h
    exact absurd h hkind

theorem reported_emitPieces {pieces : List Piece}
    (hsound : ∀ piece ∈ pieces, piece.flags.error = false ∧ piece.kind ∉ Reading.faultyKinds)
    (hclose : ∀ piece ∈ pieces, ∀ bracket, Context.closes? piece.kind = some bracket →
      piece.text = [bracket.closer])
    (hemits : List.Forall₂ (Piece.Emits source.toList) pieces
      (progress.emitPieces index start pieces).1.tokens) :
    (progress.emitPieces index start pieces).1.Reported source := by
  induction pieces generalizing start progress with
  | nil => exact Emission.reported_empty source
  | cons piece pieces ih =>
    rw [List.forall_mem_cons] at hsound hclose
    obtain ⟨hfirst, hrest⟩ := List.forall₂_cons.mp hemits
    exact (reported_emitPiece rfl hsound.1.1 hsound.1.2 hclose.1 hfirst).append
      (ih hsound.2 hclose.2 hrest)

/-- A faulty lexeme is one marked token, and the only diagnostic is the problem. -/
theorem emit_of_faulty (index : LineIndex) {mode : Mode} {o : Occurrence} {kind : TokenKind}
    {problem : Problem}
    (hreading : Reading.ofLexeme mode progress.context o.lexeme o.ahead =
      .faulty o.lexeme kind problem) (hclose : Context.closes? kind = none) :
    ∃ token : Token, (progress.emit mode index o).1 = ⟨[token], [⟨o.span, problem⟩]⟩ ∧
      token.span = o.span ∧ token.flags.error = true := by
  have hissue : progress.context.issue? kind = none := by
    unfold Context.issue?
    rw [hclose]
  obtain ⟨token, htokens, hspan, herror⟩ : ∃ token : Token,
      (progress.emitPieces index o.start (Reading.faulty o.lexeme kind problem).pieces).1.tokens =
        [token] ∧ token.span = o.span ∧ token.flags.error = true := ⟨_, rfl, rfl, rfl⟩
  refine ⟨token, ?_, hspan, herror⟩
  unfold emit
  rw [hreading]
  show Emission.mk _ ([_] ++ ((progress.context.issue? kind).toList.map _ ++ [])) = _
  rw [List.nil_append, htokens, hissue]
  rfl

/-- A lexeme is reported if it is faulty or if a piece of it fails to close. -/
theorem reported_emit {mode : Mode} {o : Occurrence} (h : o.StandsIn source.toList) :
    (progress.emit mode index o).1.Reported source := by
  obtain ⟨cs, hcs⟩ := h.spelled
  have hemits := emits_emit h mode index progress
  have hclose : ∀ piece ∈ (Reading.ofLexeme mode progress.context o.lexeme o.ahead).pieces,
      ∀ bracket, Context.closes? piece.kind = some bracket → piece.text = [bracket.closer] :=
    fun piece hpiece bracket hbracket => Reading.text_of_closes? hcs hpiece hbracket
  have hjudged := Reading.judged_ofLexeme mode progress.context o.lexeme o.ahead
  generalize hreading : Reading.ofLexeme mode progress.context o.lexeme o.ahead = reading at *
  cases hjudged with
  | sound hproblem hpieces =>
    unfold emit at hemits ⊢
    rw [hreading] at hemits ⊢
    dsimp only at hemits ⊢
    rw [hproblem]
    exact (Emission.reported_empty source).append (reported_emitPieces hpieces hclose hemits)
  | @faulty kind problem hfault =>
    obtain ⟨token, hemit, hspan, herror⟩ := emit_of_faulty index hreading hfault.closes?_eq_none
    rw [hemit] at hemits ⊢
    obtain ⟨htoken, -⟩ := List.forall₂_cons.mp hemits
    refine ⟨?_, List.forall_mem_singleton.mpr fun _ => herror⟩
    dsimp only
    rw [List.filter_cons, herror]
    refine .cons ⟨hspan.symm, ?_⟩ .nil
    rw [htoken.1, htoken.2.text_eq, String.toList_ofList]
    exact hfault.concerns hcs

/-- A run is reported if all of its lexemes stand in the source. -/
theorem reported_run {mode : Mode} {os : List Occurrence}
    (hos : ∀ o ∈ os, o.StandsIn source.toList) :
    (progress.run mode index os).1.Reported source := by
  induction os generalizing progress with
  | nil => exact Emission.reported_empty source
  | cons o os ih =>
    rw [List.forall_mem_cons] at hos
    rw [run_cons]
    exact (reported_emit hos.1).append (ih hos.2)

/-! ## Comments and text blocks without an end -/

theorem leavesOpen_emit {mode : Mode} {o : Occurrence} {d : Diagnostic}
    (hd : d ∈ (progress.emit mode index o).1.diagnostics) (hopen : d.problem.leavesOpen = true) :
    mode = .whole ∧ o.lexeme.shape.isOpen = true ∧ d.span = o.span := by
  have hjudged := Reading.judged_ofLexeme mode progress.context o.lexeme o.ahead
  rcases List.mem_append.mp hd with hd | hd
  · obtain ⟨problem, hproblem, rfl⟩ := List.mem_map.mp hd
    obtain ⟨kind, hfault⟩ := hjudged.exists_fault (Option.mem_toList.mp hproblem)
    obtain ⟨hmode, hshape⟩ := hfault.of_leavesOpen hopen
    exact ⟨hmode, hshape, rfl⟩
  · obtain ⟨x, -, issue, -, hissue⟩ := diagnostics_emitPieces hd
    rw [hissue] at hopen
    cases hopen

/-- What is left open is found in whole sources only, and it reaches to their end. -/
theorem leavesOpen_run {mode : Mode} {cs : List Char} {d : Diagnostic}
    (hd : d ∈ (progress.run mode index
      (Occurrence.ofLexemes start (Lexeme.ofText cs))).1.diagnostics)
    (hopen : d.problem.leavesOpen = true) :
    mode = .whole ∧ d.span.stop = start + Text.byteSize cs := by
  rw [diagnostics_run] at hd
  obtain ⟨v, hv, hd⟩ := List.mem_flatMap.mp hd
  obtain ⟨hmode, hshape, hspan⟩ := leavesOpen_emit hd hopen
  obtain ⟨before, after, hls, hstart, -⟩ :=
    Occurrence.mem_ofLexemes_iff.mp (mem_of_mem_visits hv)
  have hafter : after = [] := by
    by_contra hafter
    rw [Line.isOpen_of_ofText_eq hls hafter] at hshape
    cases hshape
  have htotal := Lexeme.totalLength_ofText cs
  rw [hls, hafter, Lexeme.totalLength_append, Lexeme.totalLength_singleton] at htotal
  refine ⟨hmode, ?_⟩
  rw [hspan]
  show v.occurrence.start + v.occurrence.lexeme.length = _
  omega

end Progress

/-! ## Sources and lines -/

namespace Emission.Reported

variable {source : String} {e : Emission}

theorem map_span_eq (h : e.Reported source) :
    e.diagnostics.map Diagnostic.span = (e.tokens.filter (·.flags.error)).map Token.span := by
  have key : ∀ {tokens : List Token} {ds : List Diagnostic},
      List.Forall₂ (Diagnostic.Reports source) tokens ds →
        ds.map Diagnostic.span = tokens.map Token.span := by
    intro tokens ds hmatched
    induction hmatched with
    | nil => rfl
    | cons hfirst _ ih => rw [List.map_cons, List.map_cons, hfirst.1, ih]
  exact key h.matched

theorem ascending (h : e.Reported source) {start stop : Nat}
    (htile : Span.Tile start stop (e.tokens.map Token.span)) :
    e.diagnostics.Pairwise fun a b => a.offset < b.offset := by
  have hspans : (e.diagnostics.map Diagnostic.span).Pairwise fun a b => a.start < b.start := by
    rw [h.map_span_eq]
    refine List.Pairwise.sublist (List.filter_sublist.map Token.span) ?_
    exact htile.pairwise.imp fun hab => hab.2
  rw [List.pairwise_map] at hspans
  exact hspans

/-- A token that is marked for a comment or a text block without an end is reported as such. -/
theorem exists_of_leavesOpen (h : e.Reported source) {token : Token} (htoken : token ∈ e.tokens)
    (herror : token.flags.error = true)
    (hkind : token.kind.isComment = true ∨ token.kind = .unterminatedLiteral ∧
      LiteralForm.ofQuotes? (token.text source).toList = some .textBlock) :
    ∃ d ∈ e.diagnostics, d.problem.leavesOpen = true ∧ d.span = token.span := by
  have hmem : token ∈ e.tokens.filter (·.flags.error) := List.mem_filter.mpr ⟨htoken, herror⟩
  obtain ⟨d, hd, hspan, hconcerns⟩ := exists_of_mem_forall₂ h.matched.flip hmem
  exact ⟨d, hd, hconcerns.leavesOpen_eq hkind, hspan⟩

end Emission.Reported

/-- What a run through the rest of a source reports. -/
structure Emission.Faults (source : String) (mode : Mode) (e : Emission) : Prop where
  reported : e.Reported source
  ascending : e.diagnostics.Pairwise fun a b => a.offset < b.offset
  last : ∀ token ∈ e.tokens, token.flags.error = true →
    token.kind.isComment = true ∨ token.kind = .unterminatedLiteral ∧
      LiteralForm.ofQuotes? (token.text source).toList = some .textBlock →
    e.tokens.getLast? = some token
  closed : mode = .line → ∀ d ∈ e.diagnostics, d.problem.leavesOpen = false

theorem Progress.faults_run {source : String} {front rest : List Char}
    (hsource : source.toList = front ++ rest) (mode : Mode) (index : LineIndex)
    (progress : Progress) :
    (progress.run mode index
      (Occurrence.ofLexemes (Text.byteSize front) (Lexeme.ofText rest))).1.Faults source mode := by
  have hreported : (progress.run mode index
      (Occurrence.ofLexemes (Text.byteSize front) (Lexeme.ofText rest))).1.Reported source := by
    refine reported_run fun o ho => ?_
    rw [hsource]
    exact Occurrence.standsIn_of_mem ho
  have htile := tile_run
    (fun l (hl : l ∈ Lexeme.ofText rest) =>
      ⟨Lexeme.inText_of_mem_ofText hl, Lexeme.length_pos_of_mem_ofText hl⟩)
    mode index progress (Text.byteSize front)
  refine ⟨hreported, hreported.ascending htile, ?_, ?_⟩
  · intro token htoken herror hkind
    obtain ⟨d, hd, hopen, hspan⟩ := hreported.exists_of_leavesOpen htoken herror hkind
    refine Token.getLast?_of_tile htile htoken ?_
    rw [← hspan, (leavesOpen_run hd hopen).2, Lexeme.totalLength_ofText]
  · rintro rfl d hd
    rw [Bool.eq_false_iff]
    intro hopen
    cases (leavesOpen_run hd hopen).1

/-- The part of a line that goes on with what is open is never marked. -/
theorem Line.reported_carriedTokens (line : String) (carry : Option Construct)
    (cs : List Char) : (⟨carriedTokens carry cs, []⟩ : Emission).Reported line := by
  have hkinds : ∀ construct : Construct, construct.kind ∉ Reading.faultyKinds := by
    intro construct
    cases construct <;> decide
  unfold carriedTokens continuation
  split
  · exact Emission.reported_empty line
  · next construct =>
    split
    · exact Emission.reported_empty line
    · exact ⟨.nil, List.forall_mem_singleton.mpr fun h => absurd h (hkinds construct)⟩

theorem Context.unclosed_cases (ctx : Context) (f : BracketIssue → Diagnostic) :
    ctx.unclosed?.toList.map f = [] ∨
      ∃ count innermost, ctx.unclosed?.toList.map f = [f (.unclosed count innermost)] := by
  unfold unclosed?
  cases ctx.top with
  | none => exact .inl rfl
  | some region => exact .inr ⟨ctx.depth, region.closer, rfl⟩

theorem TokenStream.upcoming_floorBoundary (source : String) (offset : Nat) (stoppable : Bool) :
    ∃ front rest, source.toList = front ++ rest ∧
      (openAt source (Text.floorBoundary offset source.toList) stoppable).upcoming =
        Occurrence.ofLexemes (Text.byteSize front) (Lexeme.ofText rest) := by
  obtain ⟨front, rest, hsource, hfront⟩ :=
    Text.exists_byteSize_eq_floorBoundary offset source.toList
  refine ⟨front, rest, hsource, upcoming_openAt hsource ?_ stoppable⟩
  have hsize := congrArg Text.byteSize hsource
  rw [Text.byteSize_toList, Text.byteSize_append] at hsize
  omega

/-- **Diagnostics and marked tokens correspond one to one**, in order. In a whole source, what
regions are left open comes last of all, and a comment or a text block without an end is the
last token. In a line, there is none of these. -/
theorem faultsReported :
    (∀ (source : String) (offset : Nat),
      let output := tokenizeFrom source offset
      ∃ reports unclosed : List Diagnostic, output.diagnostics = reports ++ unclosed ∧
        (unclosed = [] ∨ ∃ count innermost, unclosed =
          [⟨.point source.utf8ByteSize, .unbalanced (.unclosed count innermost)⟩]) ∧
        Emission.Reported source ⟨output.tokens, reports⟩ ∧
        reports.Pairwise (fun a b => a.offset < b.offset) ∧
        ∀ token ∈ output.tokens, token.flags.error = true →
          token.kind.isComment = true ∨ token.kind = .unterminatedLiteral ∧
            LiteralForm.ofQuotes? (token.text source).toList = some .textBlock →
          output.tokens.getLast? = some token) ∧
    ∀ (line : String) (state : LineState),
      let output := tokenizeLine line state
      Emission.Reported line ⟨output.tokens, output.diagnostics⟩ ∧
        output.diagnostics.Pairwise (fun a b => a.offset < b.offset) ∧
        ∀ d ∈ output.diagnostics, d.problem ≠ .unterminatedComment ∧
          d.problem ≠ .unterminatedLiteral .textBlock ∧
          ∀ count innermost, d.problem ≠ .unbalanced (.unclosed count innermost) := by
  constructor
  · intro source offset output
    let s := TokenStream.openAt source (Text.floorBoundary offset source.toList) false
    obtain ⟨front, rest, hsource, hupcoming⟩ :=
      TokenStream.upcoming_floorBoundary source offset false
    have houtput : output = _ := TokenStream.drain_openAt source _ false
    have hfaults := Progress.faults_run hsource .whole s.index s.progress
    have hsize : s.index.size = source.utf8ByteSize := Text.byteSize_toList source
    rw [hupcoming] at houtput
    rw [houtput]
    refine ⟨_, _, rfl, ?_, hfaults.reported, hfaults.ascending, hfaults.last⟩
    rw [← hsize]
    exact s.lastContext.unclosed_cases _
  · intro line state output
    have hsource := (Line.carriedPart_append_rest state.carry line.toList).symm
    have hfaults := Progress.faults_run hsource .line (.ofText line.toList)
      ⟨Line.contextOfRest state line.toList, 0⟩
    have houtput : output = _ := Line.tokenizeLine_eq line state
    rw [houtput]
    refine ⟨(Line.reported_carriedTokens line state.carry line.toList).append hfaults.reported,
      hfaults.ascending, fun d hd => ?_⟩
    have hclosed := hfaults.closed rfl d hd
    obtain ⟨token, -, -, hconcerns⟩ := exists_of_mem_forall₂ hfaults.reported.matched hd
    have hne : ∀ problem : Problem, problem.leavesOpen = true → d.problem ≠ problem := by
      rintro _ hopen rfl
      cases hclosed.symm.trans hopen
    exact ⟨hne _ rfl, hne _ rfl, hconcerns.ne_unclosed⟩

/-- The comment without an end is the last of the three tokens. -/
theorem faultsReported_openComment :
    (tokenizeFrom "a /*" 0).tokens.getLast? =
      some ⟨.commentBlock, ⟨2, 4⟩, ⟨1, 3⟩, ⟨false, true, false, false⟩⟩ := by
  obtain ⟨reports, unclosed, -, -, -, -, hlast⟩ := faultsReported.1 "a /*" 0
  exact hlast _ (by decide +kernel) rfl (.inl rfl)

end JavaHighlight
