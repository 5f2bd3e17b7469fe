import JavaHighlight.Proofs.Lambdas.Promise

/-!
# The parameters of a lambda are closed in front of an arrow

Whenever a parenthesis opens the parameters of a lambda, a later parenthesis closes just these
parameters, no brace and no semicolon stands in between, and an arrow comes next
(`lambdas_honoured`). The induction goes along the lexemes behind the opening parenthesis; the
parentheses that are open inside of the parameters are what the scan counts
(`Context.exists_closing`).
-/

namespace JavaHighlight

/-- The tokens that cannot stand in the parameters of a lambda. -/
def TokenKind.endsLambda (kind : TokenKind) : Bool :=
  kind ∈ [TokenKind.leftBrace, .rightBrace, .semicolon]

/-- The parameters of a lambda inside of `outer` stay open over the steps in between, none of
which is a brace or a semicolon. Then a parenthesis closes them and nothing else, without a
complaint, and an arrow is next. -/
structure LambdaClosed (outer : List Region) (between : List Step) (closing arrow : Step) :
    Prop where
  inside : ∀ s ∈ between, s.kind.endsLambda = false ∧ .lambdaParams :: outer <:+ s.before.regions
  kind : closing.kind = .rightParen
  innermost : closing.before.regions = .lambdaParams :: outer
  closes : closing.after.regions = outer
  fits : closing.issue? = none
  arrow : arrow.kind = .arrow

/-- The parameters of each lambda that is opened among consecutive steps are closed among them,
in front of an arrow. None are open in front of a brace or a semicolon or behind the last step. -/
structure LambdasHonoured (steps : List Step) (last : Context) : Prop where
  closed : ∀ earlier opening later, steps = earlier ++ opening :: later →
    opening.kind = .leftParen → opening.Opens .lambdaParams →
      ∃ between closing arrow rest, later = between ++ closing :: arrow :: rest ∧
        LambdaClosed opening.before.regions between closing arrow
  notAtStop : ∀ s ∈ steps, s.kind.endsLambda = true → .lambdaParams ∉ s.before.regions
  notAtEnd : .lambdaParams ∉ last.regions

/-! ## From the opening parenthesis to the arrow -/

namespace LambdaClosed

variable {outer : List Region} {between : List Step} {closing arrow : Step}

theorem append_inside (h : LambdaClosed outer between closing arrow) {front : List Step}
    (hfront : ∀ s ∈ front, s.kind.endsLambda = false ∧
      .lambdaParams :: outer <:+ s.before.regions) :
    LambdaClosed outer (front ++ between) closing arrow :=
  { h with inside := List.forall_mem_append.mpr ⟨hfront, h.inside⟩ }

end LambdaClosed

namespace Context

variable {mode : Mode} {ctx : Context} {l : Lexeme} {ls : List Lexeme}
  {inner outer : List Region}

theorem lexemeSteps_of_arrow (h : l.isSymbol .arrow = true) (mode : Mode) (ctx : Context)
    (ahead : List Lexeme) :
    ctx.lexemeSteps mode l ahead = [⟨ctx, Piece.ofLexeme l .arrow⟩] := by
  have hl : l.shape = .symbol .arrow := of_decide_eq_true h
  have hpieces : (Reading.ofLexeme mode ctx l ahead).pieces = [Piece.ofLexeme l .arrow] := by
    rw [Reading.ofLexeme, hl]
    rfl
  exact (lexemeSteps_of_pieces hpieces rfl).1

theorem script_closing {piece : Piece} {arrow : Lexeme}
    (h : ctx.lexemeSteps mode l (arrow :: ls) = [⟨ctx, piece⟩])
    (harrow : arrow.isSymbol .arrow = true) :
    ctx.script mode (l :: arrow :: ls) =
      [] ++ ⟨ctx, piece⟩ :: ⟨ctx.read mode l (arrow :: ls), Piece.ofLexeme arrow .arrow⟩ ::
        ((ctx.read mode l (arrow :: ls)).read mode arrow ls).script mode ls := by
  rw [script, h, script, lexemeSteps_of_arrow harrow]
  rfl

theorem lambdaClosed_rightParen {piece : Piece} (hkind : piece.kind = .rightParen)
    (hregions : ctx.regions = .lambdaParams :: outer) {arrow : Step}
    (harrow : arrow.kind = .arrow) : LambdaClosed outer [] ⟨ctx, piece⟩ arrow where
  inside := fun _ hs => absurd hs List.not_mem_nil
  kind := hkind
  innermost := hregions
  closes := by
    rw [Step.regions_after, Step.kind, hkind]
    show ctx.regions.tail = outer
    rw [hregions, List.tail_cons]
  fits := by
    rw [Step.issue?, Step.kind, hkind, issue?, top, hregions]
    rfl
  arrow := harrow

/-- Where the parameters of a lambda are open, the steps ahead close them in front of an arrow. -/
theorem exists_closing (hls : ∀ l ∈ ls, l.isTrivia = false) (h : ctx.PromisesArrow ls)
    (hregions : ctx.outside = inner ++ .lambdaParams :: outer) :
    ∃ between closing arrow rest, ctx.script mode ls = between ++ closing :: arrow :: rest ∧
      LambdaClosed outer between closing arrow := by
  induction ls generalizing ctx inner with
  | nil =>
    have hmem := h.not_mem_of_nil
    refine absurd (ctx.outside_suffix.subset ?_) hmem
    rw [hregions]
    exact List.mem_append_right _ List.mem_cons_self
  | cons l ls ih =>
    rw [List.forall_mem_cons] at hls
    have hsuffix : .lambdaParams :: outer <:+ ctx.outside := ⟨inner, hregions.symm⟩
    have hnext : (ctx.read mode l ls).PromisesArrow ls :=
      keptByReading_promisesArrow mode ctx l ls (by rwa [if_neg (by simp [hls.1])])
    -- A step after which the parameters are still open comes in front of what is left.
    have hgoes : ∀ inner', (ctx.read mode l ls).outside = inner' ++ .lambdaParams :: outer →
        (∀ s ∈ ctx.lexemeSteps mode l ls,
          s.kind.endsLambda = false ∧ .lambdaParams :: outer <:+ s.before.regions) →
        ∃ between closing arrow rest,
          ctx.script mode (l :: ls) = between ++ closing :: arrow :: rest ∧
            LambdaClosed outer between closing arrow := by
      intro inner' hregions' hsteps
      obtain ⟨between, closing, arrow, rest, hscript, hclosed⟩ := ih hls.2 hnext hregions'
      refine ⟨_, closing, arrow, rest, ?_, hclosed.append_inside hsteps⟩
      rw [script, hscript, List.append_assoc]
    by_cases hdelimits : ∃ s, l.Delimits s
    · obtain ⟨s, hs⟩ := hdelimits
      obtain ⟨depth, hpromised⟩ := h.typeArgs
      obtain ⟨piece, hsteps, hkind, -, hread, hbefore, hafter⟩ := hpromised.read_delimiter hs mode
      have hafter' : (ctx.read mode l ls).outside =
          ctx.regionsAfter (Reading.symbolKind s) piece.opensLambda := by
        rw [hafter, hread, observePiece, regions_observe, hkind]
      have hin : ∀ kind, piece.kind = kind → kind.endsLambda = false →
          ∀ s ∈ ctx.lexemeSteps mode l ls,
            s.kind.endsLambda = false ∧ .lambdaParams :: outer <:+ s.before.regions := by
        intro kind hkind' hends
        rw [hsteps, List.forall_mem_singleton]
        refine ⟨?_, hbefore ▸ hsuffix⟩
        rw [Step.kind, hkind', hends]
      rcases Symbol.mem_of_delimiter hs.2 with rfl | rfl | hstop
      · refine hgoes (ctx.parenRegion piece.opensLambda :: inner) ?_ (hin _ hkind rfl)
        rw [hafter', List.cons_append, ← hregions, hbefore]
        rfl
      · cases inner with
        | nil =>
          obtain ⟨-, fuel, hfound⟩ := h.lambdas [] outer hregions
          rcases Lookahead.closesBeforeArrow_rightParen hs hfound with
            ⟨-, arrow, rest, rfl, harrow⟩ | ⟨hdepth, -⟩
          · exact ⟨[], _, _, _, script_closing hsteps harrow,
              lambdaClosed_rightParen hkind (hbefore.symm.trans hregions) rfl⟩
          · exact absurd hdepth (Nat.lt_irrefl 1)
        | cons region inner =>
          refine hgoes inner ?_ (hin _ hkind rfl)
          rw [hafter']
          show ctx.regions.tail = _
          rw [← hbefore, hregions, List.cons_append, List.tail_cons]
      · refine absurd (ctx.outside_suffix.subset ?_) (h.not_mem_of_stop hs hstop)
        exact hsuffix.subset List.mem_cons_self
    · rw [not_exists] at hdelimits
      obtain ⟨houtside, hsteps⟩ := outside_read hdelimits mode ctx ls
      refine hgoes inner (houtside.trans hregions) fun s hs => ?_
      obtain ⟨hkind, hbefore⟩ := hsteps s hs
      have key : ∀ kind ∈ TokenKind.all, kind ∉ TokenKind.delimiters →
          kind.endsLambda = false := by decide
      exact ⟨key _ s.kind.mem_all hkind, (hbefore ▸ hsuffix).trans s.before.outside_suffix⟩

end Context

/-! ## Runs -/

namespace TokenKind

theorem not_angle_of_delimiter {kind : TokenKind} (h : kind ∈ delimiters) :
    kind ≠ .genericClose ∧ kind ≠ .operator := by
  have key : ∀ kind ∈ delimiters, kind ≠ .genericClose ∧ kind ≠ .operator := by decide
  exact key kind h

theorem delimiter_of_endsLambda {kind : TokenKind} (h : kind.endsLambda = true) :
    kind ∈ delimiters := by
  have key : ∀ kind ∈ all, kind.endsLambda = true → kind ∈ delimiters := by decide
  exact key kind kind.mem_all h

end TokenKind

namespace LambdasHonoured

variable {mode : Mode}

theorem of_run (mode : Mode) (index : LineIndex) (progress : Progress) {ls : List Lexeme}
    (h : progress.context.PromisesArrow (ls.filter (·.isSignificant))) (start : Nat) :
    LambdasHonoured (progress.steps mode index (Occurrence.ofLexemes start ls))
      (progress.run mode index (Occurrence.ofLexemes start ls)).2.context := by
  have hkept := Context.keptByReading_promisesArrow mode
  have hlast := Progress.context_run_of_kept hkept progress h index start
  refine ⟨fun earlier opening later hsplit hkind hopens => ?_, fun s hs hends => ?_,
    hlast.not_mem_of_nil⟩
  · have hdelimiter : opening.kind ∈ TokenKind.delimiters := by rw [hkind]; decide
    obtain ⟨l, behind, hpromise, hplace⟩ :=
      Progress.steps_place hkept h hsplit (TokenKind.not_angle_of_delimiter hdelimiter)
    obtain ⟨symbol, hl, hsymbol, -⟩ := Shape.eq_symbol_of_delimiter hplace.kind_mem hdelimiter
    obtain ⟨depth, hpromised⟩ := hpromise.typeArgs
    obtain ⟨-, -, -, -, -, -, hafter⟩ :=
      hpromised.read_delimiter ⟨hl, hsymbol ▸ hdelimiter⟩ mode
    have hnext : (opening.before.read mode l behind).PromisesArrow behind :=
      hkept _ _ _ (by rwa [if_neg (by rw [Lexeme.isTrivia, hl]; exact Bool.false_ne_true)])
    rw [hplace.read] at hnext hafter
    rw [hplace.later]
    have houtside : opening.after.outside = [] ++ .lambdaParams :: opening.before.regions :=
      hafter.trans hopens
    exact Context.exists_closing hplace.significant hnext houtside
  · obtain ⟨earlier, later, hsplit⟩ := List.append_of_mem hs
    have hdelimiter := TokenKind.delimiter_of_endsLambda hends
    obtain ⟨l, behind, hpromise, hplace⟩ :=
      Progress.steps_place hkept h hsplit (TokenKind.not_angle_of_delimiter hdelimiter)
    obtain ⟨symbol, hl, hsymbol, -⟩ := Shape.eq_symbol_of_delimiter hplace.kind_mem hdelimiter
    have key : ∀ symbol ∈ Symbol.all, (Reading.symbolKind symbol).endsLambda = true →
        symbol ∈ Lookahead.lambdaStops := by decide
    exact hpromise.not_mem_of_stop ⟨hl, hsymbol ▸ hdelimiter⟩
      (key symbol symbol.mem_all (hsymbol ▸ hends))

theorem append_front {front steps : List Step} {last : Context}
    (h : LambdasHonoured steps last) (hfront : ∀ s ∈ front, s.kind ∉ TokenKind.delimiters) :
    LambdasHonoured (front ++ steps) last := by
  refine { h with closed := fun earlier opening later hsplit hkind hopens => ?_, notAtStop := ?_ }
  · rw [List.append_eq_append_iff] at hsplit
    rcases hsplit with ⟨earlier', -, hsteps⟩ | ⟨rest, hfront', hlater⟩
    · exact h.closed earlier' opening later hsteps hkind hopens
    · cases rest with
      | nil => exact h.closed [] opening later hlater.symm hkind hopens
      | cons s rest =>
        obtain ⟨rfl, -⟩ := List.cons.inj hlater
        refine absurd ?_ (hfront opening (hfront' ▸ List.mem_append_right _ List.mem_cons_self))
        rw [hkind]
        decide
  · refine List.forall_mem_append.mpr ⟨fun s hs hends => ?_, h.notAtStop⟩
    exact absurd (TokenKind.delimiter_of_endsLambda hends) (hfront s hs)

end LambdasHonoured

/-! ## Lines -/

namespace Line

/-- Behind each line no parameters of a lambda are open, so the rest of the next line keeps the
promise whatever is ahead. -/
theorem promisesArrow_contextOfRest {state : LineState} (h : state.context.PromisesArrow [])
    (cs : List Char) (ahead : List Lexeme) : (contextOfRest state cs).PromisesArrow ahead := by
  obtain ⟨depth, hpromised⟩ := h.typeArgs
  have hheader : (contextOfRest state cs).HeaderWaitsForBody := by
    rw [contextOfRest_eq_observePieces]
    exact hpromised.header.observePieces _
  refine .of_not_mem hheader ?_ ?_ ahead
  · rw [regions_contextOfRest]
    exact hpromised.not_mem
  · rw [regions_contextOfRest]
    exact h.not_mem_of_nil

theorem promisesArrow_tokenizeLine {state : LineState} (h : state.context.PromisesArrow [])
    (line : String) : (tokenizeLine line state).state.context.PromisesArrow [] := by
  rw [tokenizeLine_eq]
  exact Progress.context_run_of_kept (Context.keptByReading_promisesArrow .line) ⟨_, 0⟩
    (promisesArrow_contextOfRest h line.toList _) _ _

theorem promisesArrow_stateBehind (lines : List String) :
    (stateBehind lines).context.PromisesArrow [] :=
  stateBehind_of_kept (P := fun state => state.context.PromisesArrow [])
    (Context.promisesArrow_initial []) (fun _ line h => promisesArrow_tokenizeLine h line) lines

end Line

/-- **The parameters of a lambda are closed in front of an arrow**, in a source that is read from
any offset on and in each line that is read in the state behind any earlier lines. -/
theorem lambdas_honoured :
    (∀ (source : String) (offset : Nat) (stoppable : Bool),
      let s := TokenStream.openAt source offset stoppable
      List.Forall₂ (Token.Shows source) (s.drain false).significant s.steps ∧
        LambdasHonoured s.steps s.lastContext) ∧
    ∀ (earlier : List String) (line : String),
      let state := Line.stateBehind earlier
      let output := tokenizeLine line state
      let steps := Line.steps state line.toList
      List.Forall₂ (Token.Shows line) (output.tokens.filter (!·.isTrivia)) steps ∧
        LambdasHonoured steps output.state.context := by
  constructor
  · intro source offset stoppable s
    refine ⟨TokenStream.shows_steps source offset stoppable, ?_⟩
    exact LambdasHonoured.of_run .whole s.index ⟨.initial, 0⟩ (Context.promisesArrow_initial _) _
  · intro earlier line state output steps
    refine ⟨Line.shows_steps line state, ?_⟩
    have hstart := Line.promisesArrow_contextOfRest (Line.promisesArrow_stateBehind earlier)
      line.toList
    have houtput : output = _ := Line.tokenizeLine_eq line state
    rw [houtput]
    refine (LambdasHonoured.of_run .line (LineIndex.ofText line.toList)
      ⟨Line.contextOfRest state line.toList, 0⟩ (hstart _) _).append_front fun s hs => ?_
    rw [Line.kind_of_mem_carried hs]
    decide

end JavaHighlight
