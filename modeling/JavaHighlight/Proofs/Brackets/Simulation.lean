import JavaHighlight.Proofs.Brackets.PlainStack
import JavaHighlight.Proofs.TypeArguments.Paired
import JavaHighlight.Tokenize

/-!
# Brackets are paired by themselves

Reading opens regions of many kinds, some of them because of what was found ahead. None of that
matters for how braces and parentheses are paired: the diagnostics about brackets are those of
a plain stack (`Progress.run_simulates`), which knows of braces and parentheses only. This is so
because no type arguments are open where one of them is observed.
-/

namespace JavaHighlight

def Diagnostic.isUnbalanced (d : Diagnostic) : Bool :=
  match d.problem with
  | .unbalanced _ => true
  | _ => false

def TokenKind.plainBrackets : List TokenKind := [
  .leftBrace, .rightBrace, .leftParen, .rightParen]

namespace Context

/-- The brackets around the open regions, the innermost first. -/
def brackets (ctx : Context) : List Bracket :=
  ctx.regions.map Region.bracket

theorem bracket_eq_angle_iff (region : Region) :
    region.bracket = .angle ↔ region = .typeArgs := by
  have key : ∀ region ∈ Region.all, region.bracket = .angle ↔ region = .typeArgs := by decide
  exact key region region.mem_all

theorem issue?_of_closes? {kind : TokenKind} {bracket : Bracket}
    (h : closes? kind = some bracket) (ctx : Context) :
    ctx.issue? kind = (PlainStack.close bracket ctx.brackets).1 := by
  unfold issue? brackets top
  rw [h]
  cases ctx.regions <;> rfl

/-- The brackets around the open regions, without those of type arguments. -/
def plainStack (ctx : Context) : List Bracket :=
  (ctx.regions.map Region.bracket).filter (· ≠ .angle)

theorem plainStack_eq_brackets {ctx : Context} (h : .typeArgs ∉ ctx.regions) :
    ctx.plainStack = ctx.brackets := by
  unfold plainStack brackets
  rw [List.filter_eq_self]
  intro bracket hbracket
  obtain ⟨region, hregion, rfl⟩ := List.mem_map.mp hbracket
  have hne : region ≠ .typeArgs := fun heq => h (heq ▸ hregion)
  exact decide_eq_true (mt (bracket_eq_angle_iff region).mp hne)

/-! ## Tokens that are no brackets -/

theorem bracket_endConstants (regions : List Region) :
    (endConstants regions).map Region.bracket = regions.map Region.bracket := by
  unfold endConstants
  split <;> rfl

/-- Only braces and parentheses move the plain stack. -/
theorem plainStack_observe_of_not_mem {kind : TokenKind} (h : kind ∉ TokenKind.plainBrackets)
    (ctx : Context) (text : String) (opensLambda : Bool) :
    (ctx.observe kind text opensLambda).plainStack = ctx.plainStack := by
  unfold plainStack
  rw [regions_observe]
  by_cases hopen : kind = .genericOpen
  · subst hopen
    simp [regionsAfter, Region.bracket]
  by_cases hclose : kind = .genericClose
  · subst hclose
    unfold regionsAfter
    dsimp only
    split_ifs with htop
    · obtain ⟨regions, hregions⟩ := List.head?_eq_some_iff.mp htop
      simp [hregions, Region.bracket]
    · rfl
  by_cases hsemicolon : kind = .semicolon
  · subst hsemicolon
    exact congrArg _ (bracket_endConstants ctx.regions)
  · have hneutral : kind ∉ TokenKind.delimiters := by
      simp only [TokenKind.delimiters, TokenKind.plainBrackets, List.mem_cons, List.not_mem_nil,
        or_false, not_or] at h ⊢
      exact ⟨h.1, h.2.1, h.2.2.1, h.2.2.2, hsemicolon⟩
    rw [regionsAfter_of_neutral hneutral (by simp [TokenKind.isAngle, hopen, hclose])]

theorem plainStack_observePieces_of_not_mem {pieces : List Piece}
    (h : ∀ piece ∈ pieces, piece.kind ∉ TokenKind.plainBrackets) (ctx : Context) :
    (ctx.observePieces pieces).plainStack = ctx.plainStack := by
  induction pieces generalizing ctx with
  | nil => rfl
  | cons piece pieces ih =>
    rw [List.forall_mem_cons] at h
    rw [observePieces_cons, ih h.2]
    exact plainStack_observe_of_not_mem h.1 _ _ _

/-! ## Braces and parentheses -/

theorem close_plainStack {ctx : Context} (h : .typeArgs ∉ ctx.regions) {kind : TokenKind}
    {bracket : Bracket} (hkind : closes? kind = some bracket) (text : String)
    (opensLambda : Bool) :
    PlainStack.close bracket ctx.plainStack =
      (ctx.issue? kind, (ctx.observe kind text opensLambda).plainStack) := by
  have hregions : (ctx.observe kind text opensLambda).regions = ctx.regions.tail := by
    rw [regions_observe]
    unfold closes? at hkind
    split at hkind
    · rfl
    · rfl
    · cases hkind
  have htail : .typeArgs ∉ (ctx.observe kind text opensLambda).regions := by
    rw [hregions]
    exact fun hmem => h (List.mem_of_mem_tail hmem)
  rw [plainStack_eq_brackets h, plainStack_eq_brackets htail]
  refine Prod.ext (issue?_of_closes? hkind ctx).symm ?_
  unfold brackets
  rw [hregions]
  cases ctx.regions <;> rfl

/-- A brace or a parenthesis does to a context what its symbol does to the plain stack. -/
theorem step_plainStack {ctx : Context} (hheader : ctx.HeaderWaitsForBody)
    (h : .typeArgs ∉ ctx.regions) {s : Symbol} {bracket : Bracket} (hbracket : bracket ≠ .angle)
    (hs : s = bracket.openingSymbol ∨ s = bracket.closingSymbol) (text : String)
    (opensLambda : Bool) :
    PlainStack.step ctx.plainStack s =
      (ctx.issue? (Reading.symbolKind s),
        (ctx.observe (Reading.symbolKind s) text opensLambda).plainStack) := by
  cases bracket with
  | angle => exact absurd rfl hbracket
  | brace =>
    rcases hs with rfl | rfl
    · refine Prod.ext rfl ?_
      unfold plainStack
      rw [regions_observe]
      simp [PlainStack.step, Bracket.openingSymbol, Reading.symbolKind, regionsAfter,
        bracket_braceRegion hheader]
    · exact close_plainStack h rfl text opensLambda
  | paren =>
    rcases hs with rfl | rfl
    · refine Prod.ext rfl ?_
      unfold plainStack
      rw [regions_observe]
      simp [PlainStack.step, Bracket.openingSymbol, Reading.symbolKind, regionsAfter,
        bracket_parenRegion]
    · exact close_plainStack h rfl text opensLambda

end Context

/-! ## Lexemes and runs -/

theorem Reading.not_mem_plainBrackets {mode : Mode} {ctx : Context} {l : Lexeme}
    {ahead : List Lexeme} (hl : PlainStack.symbol? l = none) {piece : Piece}
    (hpiece : piece ∈ (ofLexeme mode ctx l ahead).pieces) :
    piece.kind ∉ TokenKind.plainBrackets := by
  intro hplain
  have key : ∀ kind ∈ TokenKind.plainBrackets, kind ∈ TokenKind.delimiters ∧
      ∀ s ∈ Symbol.all, symbolKind s = kind →
        s ∈ [Symbol.leftBrace, .rightBrace, .leftParen, .rightParen] := by decide
  obtain ⟨hdelimiter, hsymbol⟩ := key piece.kind hplain
  obtain ⟨s, hshape, hkind, -⟩ := Shape.eq_symbol_of_delimiter (kind_mem_kinds hpiece) hdelimiter
  rw [PlainStack.symbol?, hshape] at hl
  dsimp only at hl
  rw [if_pos (hsymbol s s.mem_all hkind)] at hl
  cases hl

/-- A brace or a parenthesis has one kind, whatever it is read as. -/
theorem Bracket.kinds_of_symbol {bracket : Bracket} (hbracket : bracket ≠ .angle) {s : Symbol}
    (hs : s = bracket.openingSymbol ∨ s = bracket.closingSymbol) :
    s.closingAngles = 0 ∧ (Shape.symbol s).kinds = [Reading.symbolKind s] ∧
      Reading.symbolKind s ∈ TokenKind.delimiters := by
  rcases hs with rfl | rfl
  · cases bracket with
    | angle => exact absurd rfl hbracket
    | brace | paren => exact ⟨rfl, rfl, by decide⟩
  · cases bracket with
    | angle => exact absurd rfl hbracket
    | brace | paren => exact ⟨rfl, rfl, by decide⟩

namespace Progress

theorem diagnostics_emitPieces_of_not_mem {index : LineIndex} {start : Nat}
    {pieces : List Piece} {progress : Progress}
    (h : ∀ piece ∈ pieces, piece.kind ∉ TokenKind.plainBrackets) :
    (progress.emitPieces index start pieces).1.diagnostics = [] := by
  rw [List.eq_nil_iff_forall_not_mem]
  intro d hd
  obtain ⟨x, hx, issue, hissue, -⟩ := diagnostics_emitPieces hd
  obtain ⟨bracket, hcloses, -⟩ := Context.issue?_eq_some hissue
  have hpiece : x.2 ∈ pieces := by
    rw [← Context.map_snd_observations progress.context pieces]
    exact List.mem_map_of_mem hx
  refine h x.2 hpiece ?_
  unfold Context.closes? at hcloses
  split at hcloses
  · next hkind => rw [hkind]; decide
  · next hkind => rw [hkind]; decide
  · cases hcloses

/-- The diagnostics of a lexeme that are about brackets are those of its pieces. -/
theorem filter_diagnostics_emit (mode : Mode) (index : LineIndex) (progress : Progress)
    (o : Occurrence) :
    (progress.emit mode index o).1.diagnostics.filter Diagnostic.isUnbalanced =
      (progress.emitPieces index o.start
        (Reading.ofLexeme mode progress.context o.lexeme o.ahead).pieces).1.diagnostics := by
  have hown : ∀ d ∈ ((Reading.ofLexeme mode progress.context o.lexeme o.ahead).problem.toList.map
      fun problem => (⟨⟨o.start, o.start + o.lexeme.length⟩, problem⟩ : Diagnostic)),
      ¬d.isUnbalanced = true := by
    intro d hd hunbalanced
    obtain ⟨problem, hproblem, rfl⟩ := List.mem_map.mp hd
    cases problem with
    | unbalanced issue =>
      exact Reading.notUnbalanced_ofLexeme _ _ _ _ issue (Option.mem_toList.mp hproblem)
    | _ => cases hunbalanced
  have hpieces : ∀ d ∈ (progress.emitPieces index o.start
      (Reading.ofLexeme mode progress.context o.lexeme o.ahead).pieces).1.diagnostics,
      d.isUnbalanced = true := by
    intro d hd
    obtain ⟨x, -, issue, -, hproblem⟩ := diagnostics_emitPieces hd
    rw [Diagnostic.isUnbalanced, hproblem]
  unfold emit
  rw [Emission.diagnostics_append, List.filter_append, List.filter_eq_nil_iff.mpr hown,
    List.nil_append, List.filter_eq_self.mpr hpieces]

/-- What a lexeme does to the plain stack, as the stack sees it and as reading does. -/
theorem emit_simulates (mode : Mode) (index : LineIndex) (progress : Progress)
    (o : Occurrence) {depth : Nat}
    (h : progress.context.Promised depth
      (if o.lexeme.isTrivia then o.ahead else o.lexeme :: o.ahead)) :
    (progress.emit mode index o).1.diagnostics.filter Diagnostic.isUnbalanced =
        (PlainStack.stepLexeme progress.context.plainStack o.lexeme).1.toList.map (fun issue =>
          ⟨⟨o.start, o.start + o.lexeme.length⟩, .unbalanced issue⟩) ∧
      (progress.emit mode index o).2.context.plainStack =
        (PlainStack.stepLexeme progress.context.plainStack o.lexeme).2 := by
  rw [filter_diagnostics_emit, context_emit, Context.read]
  cases hs : PlainStack.symbol? o.lexeme with
  | none =>
    have hkinds : ∀ piece ∈
        (Reading.ofLexeme mode progress.context o.lexeme o.ahead).pieces,
        piece.kind ∉ TokenKind.plainBrackets :=
      fun _ hpiece => Reading.not_mem_plainBrackets hs hpiece
    rw [PlainStack.stepLexeme_of_symbol?_eq_none hs, diagnostics_emitPieces_of_not_mem hkinds,
      Context.plainStack_observePieces_of_not_mem hkinds]
    exact ⟨rfl, rfl⟩
  | some s =>
    obtain ⟨hl, bracket, hbracket, hsymbol⟩ := PlainStack.stepLexeme_of_symbol?_eq_some hs
    obtain ⟨hangles, hkinds, hdelimiter⟩ := Bracket.kinds_of_symbol hbracket hsymbol
    obtain ⟨kind, hkind, flags, opensLambda, hpieces⟩ :=
      Reading.isOnePiece_ofLexeme (by rw [hl]; exact hangles) (by rw [hl]; simp) mode
        progress.context o.ahead
    rw [hl, hkinds, List.mem_singleton] at hkind
    subst hkind
    have htrivia : o.lexeme.isTrivia = false := by rw [Lexeme.isTrivia, hl]; rfl
    rw [htrivia, if_neg Bool.false_ne_true] at h
    have hstep := Context.step_plainStack h.header (h.not_mem_of_symbol hl hdelimiter) hbracket
      hsymbol (String.ofList o.lexeme.text) opensLambda
    rw [hpieces, PlainStack.stepLexeme, hl]
    dsimp only
    rw [hstep]
    refine ⟨?_, rfl⟩
    simp only [emitPieces, emitPiece, Emission.diagnostics_append, Emission.diagnostics_empty,
      List.append_nil]

/-- The diagnostics of a run that are about brackets are those of the plain stack. -/
theorem run_simulates (mode : Mode) (index : LineIndex) (progress : Progress) {depth : Nat}
    {ls : List Lexeme}
    (h : progress.context.Promised depth (ls.filter (·.isSignificant))) (start : Nat) :
    (progress.run mode index (Occurrence.ofLexemes start ls)).1.diagnostics.filter
        Diagnostic.isUnbalanced =
        (PlainStack.run start progress.context.plainStack ls).1 ∧
      (progress.run mode index (Occurrence.ofLexemes start ls)).2.context.plainStack =
        (PlainStack.run start progress.context.plainStack ls).2 := by
  induction ls generalizing start progress depth with
  | nil => exact ⟨rfl, rfl⟩
  | cons l ls ih =>
    rw [Lexeme.filter_isSignificant_cons] at h
    obtain ⟨depth', h', -⟩ := h.keeps mode
    obtain ⟨hdiagnostics, hstack⟩ :=
      emit_simulates mode index progress ⟨l, start, ls.filter (·.isSignificant)⟩ h
    obtain ⟨hrest, hlast⟩ :=
      ih (progress.emit mode index ⟨l, start, ls.filter (·.isSignificant)⟩).2
        (by rw [context_emit]; exact h') (start + l.length)
    rw [Occurrence.ofLexemes, run, Occurrence.significant_ofLexemes, PlainStack.run]
    dsimp only at hstack hlast hrest ⊢
    rw [Emission.diagnostics_append, List.filter_append, hdiagnostics, hrest, hlast, hstack]
    exact ⟨rfl, rfl⟩

end Progress

/-! ## Sources -/

namespace Text

theorem floorBoundary_le_byteSize (n : Nat) (cs : List Char) :
    floorBoundary n cs ≤ byteSize cs := by
  obtain ⟨a, b, rfl, hsize⟩ := exists_byteSize_eq_floorBoundary n cs
  rw [← hsize, byteSize_append]
  exact Nat.le_add_right _ _

end Text

theorem Context.unclosed_plainStack {ctx : Context} (h : .typeArgs ∉ ctx.regions)
    (size : Nat) :
    PlainStack.unclosed size ctx.plainStack =
      ctx.unclosed?.toList.map fun issue => ⟨.point size, .unbalanced issue⟩ := by
  rw [plainStack_eq_brackets h]
  unfold PlainStack.unclosed unclosed? top depth brackets
  cases ctx.regions with
  | nil => rfl
  | cons region regions =>
    rw [List.length_map]
    rfl

/-- **Brackets are paired by themselves.** The diagnostics about brackets of a source that is
read from any offset on are those of a plain stack of its braces and parentheses, and there is
none exactly if these form a balanced word. -/
theorem filter_isUnbalanced_tokenizeFrom (source : String) (offset : Nat) :
    let start := Text.floorBoundary offset source.toList
    let lexemes := Lexeme.ofTextFrom start source.toList
    let unbalanced := (tokenizeFrom source offset).diagnostics.filter Diagnostic.isUnbalanced
    unbalanced = PlainStack.diagnostics (Text.byteSize source.toList) start lexemes ∧
      (unbalanced = [] ↔ Balanced (PlainStack.word lexemes)) := by
  intro start lexemes unbalanced
  let s := TokenStream.openAt source start false
  have hpromised := Context.promised_initial (lexemes.filter (·.isSignificant))
  have hstart : min start (Text.byteSize source.toList) = start :=
    Nat.min_eq_left (Text.floorBoundary_le_byteSize _ _)
  have hupcoming : s.upcoming = Occurrence.ofLexemes start lexemes := by
    show Occurrence.ofLexemes (min start (Text.byteSize source.toList)) lexemes = _
    rw [hstart]
  obtain ⟨hrun, hlast⟩ := Progress.run_simulates .whole s.index ⟨.initial, 0⟩ hpromised start
  obtain ⟨depth, hend⟩ := Progress.context_run_of_kept (Context.keptByReading_promised .whole)
    ⟨.initial, 0⟩ ⟨0, hpromised⟩ s.index start
  rw [← hupcoming] at hrun hlast hend
  have hclosed : .typeArgs ∉ s.lastContext.regions := hend.not_mem
  have heq : unbalanced = PlainStack.diagnostics (Text.byteSize source.toList) start lexemes := by
    have hunclosed : ∀ issues : List BracketIssue,
        (issues.map fun issue => (⟨.point s.index.size, .unbalanced issue⟩ : Diagnostic)).filter
          Diagnostic.isUnbalanced =
        issues.map fun issue => ⟨.point s.index.size, .unbalanced issue⟩ := by
      intro issues
      rw [List.filter_eq_self]
      intro d hd
      obtain ⟨issue, -, rfl⟩ := List.mem_map.mp hd
      rfl
    calc unbalanced = (s.drain false).diagnostics.filter Diagnostic.isUnbalanced := rfl
      _ = (s.progress.run .whole s.index s.upcoming).1.diagnostics.filter
              Diagnostic.isUnbalanced ++
            s.lastContext.unclosed?.toList.map fun issue =>
              ⟨.point s.index.size, .unbalanced issue⟩ := by
          rw [TokenStream.drain_openAt, List.filter_append, hunclosed]
      _ = (PlainStack.run start [] lexemes).1 ++
            PlainStack.unclosed s.index.size (PlainStack.run start [] lexemes).2 := by
          rw [← Context.unclosed_plainStack hclosed]
          exact congr (congrArg _ hrun) (congrArg (PlainStack.unclosed s.index.size) hlast)
      _ = PlainStack.diagnostics (Text.byteSize source.toList) start lexemes := rfl
  exact ⟨heq, heq ▸ PlainStack.diagnostics_eq_nil_iff _ _ _⟩

end JavaHighlight
