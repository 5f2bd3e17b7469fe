import JavaHighlight.Proofs.LineReading
import JavaHighlight.Proofs.TypeArguments.Promise
import Mathlib.Tactic.ByContra

/-!
# Type arguments are well bracketed

In a source that is read from any offset on, and in each of its lines, the brackets of type
arguments pair up. No type arguments are open where a brace, a parenthesis or a semicolon is
observed, so none of these ever closes them, and no diagnostic asks for a `>`.
-/

namespace JavaHighlight

namespace BracketIssue

/-- The closing bracket that an issue says is missing. -/
def missing? : BracketIssue → Option Char
  | .unexpectedCloser _ => none
  | .mismatched expected _ => some expected
  | .unclosed _ innermost => some innermost

end BracketIssue

/-- What a run does with type arguments: the brackets of its tokens pair up around nothing that
breaks type arguments, no run of `>` is split into brackets and an operator, no type arguments
are open where a delimiter is observed or behind the last token, and no diagnostic misses
a `>`. -/
structure TypeArgumentsPaired (mode : Mode) (index : LineIndex) (visits : List Visit)
    (tokens : List Token) (diagnostics : List Diagnostic) (last : Context) : Prop where
  bracketed : Bracketed (tokens.map Token.kind)
  unmixed : ∀ v ∈ visits, v.lexeme.shape.closingAngles ≠ 0 →
    (v.emission mode index).tokens.map Token.kind =
        List.replicate v.lexeme.shape.closingAngles .genericClose ∨
      (v.emission mode index).tokens.map Token.kind = [.operator]
  observed : ∀ v ∈ visits, ∀ x ∈ v.observations mode, x.2.kind ∈ TokenKind.delimiters →
    .typeArgs ∉ x.1.regions
  closed : .typeArgs ∉ last.regions
  diagnosed : ∀ d ∈ diagnostics, ∀ issue, d.problem = .unbalanced issue →
    issue.missing? ≠ some '>'

namespace Region

theorem closer_ne_of_ne_typeArgs {region : Region} (h : region ≠ .typeArgs) :
    region.closer ≠ '>' := by
  have key : ∀ region ∈ all, region ≠ .typeArgs → region.closer ≠ '>' := by decide
  exact key region region.mem_all h

end Region

namespace Context

variable {mode : Mode} {ctx : Context} {depth : Nat} {l : Lexeme} {ahead : List Lexeme}

/-- A `>` run is read as brackets or as an operator, not as both. -/
theorem Promised.unmixed (h : ctx.Promised depth (l :: ahead))
    (hangles : l.shape.closingAngles ≠ 0) :
    (Reading.ofLexeme mode ctx l ahead).pieces.map Piece.kind =
        List.replicate l.shape.closingAngles .genericClose ∨
      (Reading.ofLexeme mode ctx l ahead).pieces.map Piece.kind = [.operator] := by
  rcases h.pieces_of_closingAngles hangles mode with hpieces | hpieces
  · rw [hpieces, List.map_replicate]
    exact .inl rfl
  · rw [hpieces]
    exact .inr rfl

theorem Promised.not_mem_of_symbol (h : ctx.Promised depth (l :: ahead)) {s : Symbol}
    (hl : l.shape = .symbol s) (hs : Reading.symbolKind s ∈ TokenKind.delimiters) :
    .typeArgs ∉ ctx.regions := by
  have key : ∀ s ∈ Symbol.all, Reading.symbolKind s ∈ TokenKind.delimiters →
      s ≠ .less ∧ s.closingAngles = 0 ∧ s ∉ Lookahead.typeArgSymbols := by decide
  obtain ⟨hless, hclosing, hstop⟩ := key s s.mem_all hs
  have hangles : l.shape.closingAngles = 0 := by rw [hl]; exact hclosing
  have hdepth : depth = 0 := by
    by_contra hdepth
    obtain ⟨fuel, hfound⟩ := h.found.resolve_left hdepth
    rcases Lookahead.resolveAngle_cons hfound with
      ⟨hsymbol, -⟩ | ⟨-, hstand, -⟩ | ⟨hne, -⟩ | ⟨hne, -⟩
    · rw [Lexeme.isSymbol, hl] at hsymbol
      exact hless (Shape.symbol.inj (of_decide_eq_true hsymbol))
    · rcases Lookahead.isWord_of_mayStandInTypeArgs hstand with ⟨hword, -⟩ | ⟨s', hs', hl'⟩
      · rw [hl] at hword
        cases hword
      · rw [hl] at hl'
        cases hl'
        exact hstop hs'
    · exact hne hangles
    · exact hne hangles
  subst hdepth
  exact (promised_zero_iff.mp h).2

theorem Promised.not_mem_of_delimiter
    (h : ctx.Promised depth (if l.isTrivia then ahead else l :: ahead)) {x : Context × Piece}
    (hx : x ∈ ctx.observations (Reading.ofLexeme mode ctx l ahead).pieces)
    (hkind : x.2.kind ∈ TokenKind.delimiters) : .typeArgs ∉ x.1.regions := by
  have hpiece : x.2 ∈ (Reading.ofLexeme mode ctx l ahead).pieces := by
    rw [← map_snd_observations ctx (Reading.ofLexeme mode ctx l ahead).pieces]
    exact List.mem_map_of_mem hx
  obtain ⟨s, hl, hs, hangles⟩ :=
    Shape.eq_symbol_of_delimiter (Reading.kind_mem_kinds hpiece) hkind
  have htrivia : l.isTrivia = false := by rw [Lexeme.isTrivia, hl]; rfl
  rw [htrivia, if_neg Bool.false_ne_true] at h
  obtain ⟨kind, -, flags, opensLambda, hpieces⟩ :=
    Reading.isOnePiece_ofLexeme (by rw [hl]; exact hangles) (by rw [hl]; simp) mode ctx ahead
  rw [hpieces, observations, observations, List.mem_singleton] at hx
  rw [hx]
  exact h.not_mem_of_symbol hl (hs ▸ hkind)

theorem missing?_ne_of_issue? {kind : TokenKind} {issue : BracketIssue}
    (h : ctx.issue? kind = some issue)
    (hregions : kind ∈ TokenKind.delimiters → .typeArgs ∉ ctx.regions) :
    issue.missing? ≠ some '>' := by
  obtain ⟨bracket, hcloses, ⟨-, rfl⟩ | ⟨region, htop, -, rfl⟩⟩ := issue?_eq_some h
  · simp [BracketIssue.missing?]
  · have hregion : region ≠ .typeArgs := by
      rintro rfl
      exact hregions (mem_delimiters_of_closes? hcloses) (mem_regions_of_top htop)
    rw [BracketIssue.missing?, Ne, Option.some.injEq]
    exact Region.closer_ne_of_ne_typeArgs hregion

theorem missing?_ne_of_unclosed? {issue : BracketIssue} (h : ctx.unclosed? = some issue)
    (hregions : .typeArgs ∉ ctx.regions) : issue.missing? ≠ some '>' := by
  obtain ⟨region, htop, rfl⟩ := Option.map_eq_some_iff.mp h
  have hregion : region ≠ .typeArgs := by
    rintro rfl
    exact hregions (mem_regions_of_top htop)
  rw [BracketIssue.missing?, Ne, Option.some.injEq]
  exact Region.closer_ne_of_ne_typeArgs hregion

end Context

namespace TypeArgumentsPaired

variable {mode : Mode} {index : LineIndex}

theorem of_run (mode : Mode) (index : LineIndex) (progress : Progress) {ls : List Lexeme}
    (h : progress.context.Promised 0 (ls.filter (·.isSignificant))) (start : Nat) :
    TypeArgumentsPaired mode index
      (progress.visits mode index (Occurrence.ofLexemes start ls))
      (progress.run mode index (Occurrence.ofLexemes start ls)).1.tokens
      (progress.run mode index (Occurrence.ofLexemes start ls)).1.diagnostics
      (progress.run mode index (Occurrence.ofLexemes start ls)).2.context := by
  have hkept := Context.keptByReading_promised mode
  have hvisits := Progress.visits_of_kept hkept progress ⟨0, h⟩ index start
  obtain ⟨depth, hlast⟩ := Progress.context_run_of_kept hkept progress ⟨0, h⟩ index start
  have hobserved : ∀ v ∈ progress.visits mode index (Occurrence.ofLexemes start ls),
      ∀ x ∈ v.observations mode, x.2.kind ∈ TokenKind.delimiters → .typeArgs ∉ x.1.regions := by
    intro v hv x hx hkind
    obtain ⟨depth, hpromised⟩ := hvisits v hv
    exact hpromised.not_mem_of_delimiter hx hkind
  refine ⟨(progress.closes_run h start).bracketed, ?_, hobserved, hlast.not_mem, ?_⟩
  · intro v hv hangles
    obtain ⟨depth, hpromised⟩ := hvisits v hv
    have htrivia : v.lexeme.isTrivia = false := by
      rw [Bool.eq_false_iff]
      exact fun htrivia => hangles (Shape.closingAngles_of_isTrivia htrivia).1
    rw [htrivia, if_neg Bool.false_ne_true] at hpromised
    rw [Visit.emission, Progress.map_kind_emit]
    exact hpromised.unmixed hangles
  · intro d hd issue hissue
    rw [Progress.diagnostics_run, List.mem_flatMap] at hd
    obtain ⟨v, hv, hd⟩ := hd
    rcases Progress.diagnostics_emission hd with hproblem | ⟨x, hx, issue', hissue', hd⟩
    · rw [hissue] at hproblem
      exact absurd hproblem (Reading.notUnbalanced_ofLexeme _ _ _ _ issue)
    · rw [hissue, Problem.unbalanced.injEq] at hd
      subst hd
      exact Context.missing?_ne_of_issue? hissue' (hobserved v hv x hx)

theorem append_unclosed {visits : List Visit} {tokens : List Token}
    {diagnostics : List Diagnostic} {last : Context}
    (h : TypeArgumentsPaired mode index visits tokens diagnostics last) (span : Span) :
    TypeArgumentsPaired mode index visits tokens
      (diagnostics ++ last.unclosed?.toList.map fun issue => ⟨span, .unbalanced issue⟩) last := by
  refine { h with diagnosed := fun d hd issue hissue => ?_ }
  rcases List.mem_append.mp hd with hd | hd
  · exact h.diagnosed d hd issue hissue
  · obtain ⟨unclosed, hunclosed, rfl⟩ := List.mem_map.mp hd
    rw [Problem.unbalanced.injEq] at hissue
    subst hissue
    exact Context.missing?_ne_of_unclosed? (Option.mem_toList.mp hunclosed) h.closed

theorem append_carried {visits : List Visit} {tokens : List Token}
    {diagnostics : List Diagnostic} {last : Context}
    (h : TypeArgumentsPaired mode index visits tokens diagnostics last)
    (carry : Option Construct) (cs : List Char) :
    TypeArgumentsPaired mode index visits (Line.carriedTokens carry cs ++ tokens) diagnostics
      last := by
  refine { h with bracketed := ?_ }
  unfold Line.carriedTokens Line.continuation
  split
  · exact h.bracketed
  · next construct =>
    split_ifs
    · exact h.bracketed
    · exact .other (by cases construct <;> rfl) h.bracketed

end TypeArgumentsPaired

namespace Line

theorem regions_contextOfRest (state : LineState) (cs : List Char) :
    (contextOfRest state cs).regions = state.context.regions := by
  unfold contextOfRest
  split
  · rfl
  · next construct _ =>
    unfold contextAfter
    split_ifs
    · rfl
    · rw [Context.regions_observe]
      exact Context.regionsAfter_of_neutral (by cases construct <;> decide)
        (by cases construct <;> rfl) _ _

theorem promised_contextOfRest {state : LineState} {ahead : List Lexeme}
    (h : state.context.Promised 0 ahead) (cs : List Char) (ahead' : List Lexeme) :
    (contextOfRest state cs).Promised 0 ahead' := by
  have hzero : state.context.Promised 0 ahead' :=
    Context.promised_zero_iff.mpr (Context.promised_zero_iff.mp h)
  unfold contextOfRest
  split
  · exact hzero
  · next construct _ =>
    unfold contextAfter
    split_ifs
    · exact hzero
    · exact hzero.observe_neutral (by cases construct <;> decide) (by cases construct <;> rfl) _ _

/-- No type arguments are open behind a line if none are open in front of it. -/
theorem promised_tokenizeLine {state : LineState} {ahead : List Lexeme}
    (h : state.context.Promised 0 ahead) (line : String) :
    (tokenizeLine line state).state.context.Promised 0 [] := by
  have hstart := promised_contextOfRest h line.toList
    ((Lexeme.ofText (rest state.carry line.toList)).filter (·.isSignificant))
  obtain ⟨depth, hlast⟩ := Progress.context_run_of_kept
    (Context.keptByReading_promised .line) ⟨_, 0⟩ ⟨0, hstart⟩ (LineIndex.ofText line.toList)
    (Text.byteSize (carriedPart state.carry line.toList))
  rw [tokenizeLine_eq]
  have hdepth := hlast.depth_eq_zero
  subst hdepth
  exact hlast

theorem promised_stateBehind (lines : List String) :
    (stateBehind lines).context.Promised 0 [] :=
  stateBehind_of_kept (P := fun state => state.context.Promised 0 [])
    (Context.promised_initial []) (fun _ line h => promised_tokenizeLine h line) lines

end Line

/-- **Type arguments are well bracketed.** In a source that is read from any offset on, and in
each line that is read in the state behind any earlier lines, the brackets of type arguments
pair up, and nothing is ever found to miss one of them. -/
theorem typeArguments_paired :
    (∀ (source : String) (offset : Nat) (stoppable : Bool),
      let s := TokenStream.openAt source offset stoppable
      TypeArgumentsPaired .whole s.index s.visits (s.drain false).tokens
        (s.drain false).diagnostics s.lastContext) ∧
    ∀ (earlier : List String) (line : String),
      let state := Line.stateBehind earlier
      let output := tokenizeLine line state
      TypeArgumentsPaired .line (LineIndex.ofText line.toList) (Line.visits state line.toList)
        output.tokens output.diagnostics output.state.context := by
  constructor
  · intro source offset stoppable s
    have hrun := TypeArgumentsPaired.of_run .whole s.index ⟨.initial, 0⟩
      (Context.promised_initial ((Lexeme.ofTextFrom offset source.toList).filter _))
      (min offset s.index.size)
    exact hrun.append_unclosed _
  · intro earlier line state output
    have hstart := Line.promised_contextOfRest (Line.promised_stateBehind earlier) line.toList
      ((Lexeme.ofText (Line.rest state.carry line.toList)).filter (·.isSignificant))
    have hrun := TypeArgumentsPaired.of_run .line (LineIndex.ofText line.toList)
      ⟨Line.contextOfRest state line.toList, 0⟩ hstart
      (Text.byteSize (Line.carriedPart state.carry line.toList))
    have houtput : output = _ := Line.tokenizeLine_eq line state
    rw [houtput]
    exact hrun.append_carried _ _

end JavaHighlight
