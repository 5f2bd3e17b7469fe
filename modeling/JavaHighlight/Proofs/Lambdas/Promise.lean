import JavaHighlight.Proofs.Steps
import JavaHighlight.Proofs.TypeArguments.Paired

/-!
# The promise to close the parameters of a lambda

A parenthesis opens the parameters of a lambda only if the lexemes ahead promise to close them in
front of an arrow. The scan that finds this counts parentheses and nothing else, while reading
opens and closes type arguments in between. `Context.outside` is what they agree on: the open
regions without the type arguments inside of all else. `Context.PromisesArrow` is the promise as
an invariant of reading, which every lexeme keeps (`Context.keptByReading_promisesArrow`).
-/

namespace JavaHighlight

namespace Lexeme

/-- A bracket or a semicolon: a lexeme that is read as the same delimiter wherever it stands. -/
def Delimits (l : Lexeme) (s : Symbol) : Prop :=
  l.shape = .symbol s ∧ Reading.symbolKind s ∈ TokenKind.delimiters

theorem Delimits.isSymbol_eq {l : Lexeme} {s : Symbol} (h : l.Delimits s) (t : Symbol) :
    l.isSymbol t = decide (s = t) := by
  rw [isSymbol, h.1]
  simp

end Lexeme

/-! ## The scan -/

namespace Lookahead

variable {fuel depth : Nat} {l : Lexeme} {ls : List Lexeme}

theorem closesBeforeArrow_nil (fuel depth : Nat) : closesBeforeArrow fuel depth [] = false := by
  cases fuel <;> rfl

theorem closesBeforeArrow_leftParen (hl : l.Delimits .leftParen)
    (h : closesBeforeArrow fuel depth (l :: ls) = true) :
    ∃ fuel, closesBeforeArrow fuel (depth + 1) ls = true := by
  cases fuel with
  | zero => cases h
  | succ fuel =>
    rw [closesBeforeArrow, hl.isSymbol_eq, if_pos (by decide)] at h
    exact ⟨fuel, h⟩

theorem closesBeforeArrow_rightParen (hl : l.Delimits .rightParen)
    (h : closesBeforeArrow fuel depth (l :: ls) = true) :
    (depth ≤ 1 ∧ ∃ arrow rest, ls = arrow :: rest ∧ arrow.isSymbol .arrow = true) ∨
      (1 < depth ∧ ∃ fuel, closesBeforeArrow fuel (depth - 1) ls = true) := by
  cases fuel with
  | zero => cases h
  | succ fuel =>
    rw [closesBeforeArrow, hl.isSymbol_eq, hl.isSymbol_eq, if_neg (by decide),
      if_pos (by decide)] at h
    split_ifs at h with hdepth
    · cases ls with
      | nil => cases h
      | cons arrow rest => exact .inl ⟨hdepth, arrow, rest, rfl, h⟩
    · exact .inr ⟨by omega, fuel, h⟩

theorem closesBeforeArrow_stop {s : Symbol} (hl : l.Delimits s) (hs : s ∈ lambdaStops) :
    closesBeforeArrow fuel depth (l :: ls) = false := by
  cases fuel with
  | zero => rfl
  | succ fuel =>
    have key : ∀ s ∈ lambdaStops, s ≠ .leftParen ∧ s ≠ .rightParen := by decide
    have hstops : stopsLambda l = true := by
      refine List.any_eq_true.mpr ⟨s, hs, ?_⟩
      rw [hl.isSymbol_eq, decide_eq_true rfl]
    rw [closesBeforeArrow, hl.isSymbol_eq, hl.isSymbol_eq, if_neg (by simp [(key s hs).1]),
      if_neg (by simp [(key s hs).2]), if_pos hstops]

theorem closesBeforeArrow_of_not_delimits (hl : ∀ s, ¬ l.Delimits s)
    (h : closesBeforeArrow fuel depth (l :: ls) = true) :
    ∃ fuel, closesBeforeArrow fuel depth ls = true := by
  have hnot : ∀ s, Reading.symbolKind s ∈ TokenKind.delimiters → ¬ l.isSymbol s = true :=
    fun s hs hsymbol => hl s ⟨of_decide_eq_true hsymbol, hs⟩
  cases fuel with
  | zero => cases h
  | succ fuel =>
    rw [closesBeforeArrow, if_neg (hnot _ (by decide)), if_neg (hnot _ (by decide))] at h
    split_ifs at h
    exact ⟨fuel, h⟩

end Lookahead

namespace Symbol

theorem mem_of_delimiter {s : Symbol} (h : Reading.symbolKind s ∈ TokenKind.delimiters) :
    s = .leftParen ∨ s = .rightParen ∨ s ∈ Lookahead.lambdaStops := by
  have key : ∀ s ∈ all, Reading.symbolKind s ∈ TokenKind.delimiters →
      s = .leftParen ∨ s = .rightParen ∨ s ∈ Lookahead.lambdaStops := by decide
  exact key s s.mem_all h

end Symbol

/-! ## Outside of type arguments -/

namespace Context

variable {mode : Mode} {ctx : Context} {l : Lexeme} {ahead : List Lexeme}

/-- The open regions without the type arguments inside of all else. -/
def outside (ctx : Context) : List Region :=
  ctx.regions.dropWhile (· = .typeArgs)

theorem outside_suffix (ctx : Context) : ctx.outside <:+ ctx.regions :=
  List.dropWhile_suffix _

theorem outside_of_not_mem (h : .typeArgs ∉ ctx.regions) : ctx.outside = ctx.regions := by
  unfold outside
  cases hregions : ctx.regions with
  | nil => rfl
  | cons region regions =>
    rw [hregions, List.mem_cons, not_or] at h
    rw [List.dropWhile_cons_of_neg (by simpa using Ne.symm h.1)]

/-- Only delimiters change what is open outside of type arguments. -/
theorem outside_observe {kind : TokenKind} (h : kind ∉ TokenKind.delimiters) (text : String)
    (opensLambda : Bool) : (ctx.observe kind text opensLambda).outside = ctx.outside := by
  unfold outside
  rw [regions_observe]
  cases hangle : kind.isAngle with
  | false => rw [regionsAfter_of_neutral h hangle]
  | true =>
    have hkind : kind = .genericOpen ∨ kind = .genericClose := by
      simpa [TokenKind.isAngle] using hangle
    rcases hkind with rfl | rfl
    · rw [regionsAfter, List.dropWhile_cons_of_pos (by simp)]
    · rw [regionsAfter]
      split_ifs with htop
      · obtain ⟨regions, hregions⟩ := List.head?_eq_some_iff.mp htop
        rw [hregions, List.tail_cons, List.dropWhile_cons_of_pos (by simp)]
      · rfl

theorem outside_observePieces (ctx : Context) {pieces : List Piece}
    (h : ∀ piece ∈ pieces, piece.kind ∉ TokenKind.delimiters) :
    (ctx.observePieces pieces).outside = ctx.outside ∧
      ∀ x ∈ ctx.observations pieces, x.1.outside = ctx.outside := by
  induction pieces generalizing ctx with
  | nil => exact ⟨rfl, by simp [observations]⟩
  | cons piece pieces ih =>
    rw [List.forall_mem_cons] at h
    have hpiece : (ctx.observePiece piece).outside = ctx.outside := outside_observe h.1 _ _
    obtain ⟨hlast, hall⟩ := ih (ctx.observePiece piece) h.2
    refine ⟨hlast.trans hpiece, ?_⟩
    rw [observations, List.forall_mem_cons]
    exact ⟨rfl, fun x hx => (hall x hx).trans hpiece⟩

theorem outside_read (h : ∀ s, ¬ l.Delimits s) (mode : Mode) (ctx : Context)
    (ahead : List Lexeme) :
    (ctx.read mode l ahead).outside = ctx.outside ∧
      ∀ s ∈ ctx.lexemeSteps mode l ahead,
        s.kind ∉ TokenKind.delimiters ∧ s.before.outside = ctx.outside := by
  have hkinds : ∀ piece ∈ (Reading.ofLexeme mode ctx l ahead).pieces,
      piece.kind ∉ TokenKind.delimiters := by
    intro piece hpiece hkind
    obtain ⟨s, hl, hs, -⟩ := Shape.eq_symbol_of_delimiter (Reading.kind_mem_kinds hpiece) hkind
    exact h s ⟨hl, hs ▸ hkind⟩
  obtain ⟨hlast, hall⟩ := outside_observePieces ctx hkinds
  refine ⟨hlast, fun s hs => ⟨hkinds _ (piece_mem_of_mem_steps hs), ?_⟩⟩
  exact hall _ (mem_of_mem_steps hs).1

/-! ## Reading delimiters -/

/-- A delimiter is one piece. It opens the parameters of a lambda only if they are found to be
closed in front of an arrow. -/
theorem pieces_of_delimits {s : Symbol} (h : l.Delimits s) (mode : Mode) (ctx : Context)
    (ahead : List Lexeme) :
    ∃ opensLambda, (Reading.ofLexeme mode ctx l ahead).pieces =
        [⟨Reading.symbolKind s, l.text, l.length, .none, opensLambda⟩] ∧
      (opensLambda = true → Lookahead.lambdaParams ahead = true) := by
  obtain ⟨hl, hkind⟩ := h
  unfold Reading.ofLexeme
  rw [hl]
  rcases Symbol.mem_of_delimiter hkind with rfl | rfl | hs
  · exact ⟨_, rfl, fun hopens => (Bool.and_eq_true_iff.mp hopens).2⟩
  · exact ⟨_, rfl, fun hopens => Bool.noConfusion hopens⟩
  · simp only [Lookahead.lambdaStops, List.mem_cons, List.not_mem_nil, or_false] at hs
    rcases hs with rfl | rfl | rfl <;> exact ⟨_, rfl, fun hopens => Bool.noConfusion hopens⟩

theorem Promised.read_delimiter {depth : Nat} (h : ctx.Promised depth (l :: ahead)) {s : Symbol}
    (hs : l.Delimits s) (mode : Mode) :
    ∃ piece, ctx.lexemeSteps mode l ahead = [⟨ctx, piece⟩] ∧
      piece.kind = Reading.symbolKind s ∧
      (piece.opensLambda = true → Lookahead.lambdaParams ahead = true) ∧
      ctx.read mode l ahead = ctx.observePiece piece ∧ ctx.outside = ctx.regions ∧
      (ctx.read mode l ahead).outside = (ctx.read mode l ahead).regions := by
  obtain ⟨opensLambda, hpieces, hopens⟩ := pieces_of_delimits hs mode ctx ahead
  have htrivia : ∀ kind ∈ TokenKind.delimiters, kind.isTrivia = false := by decide
  have hopen : ∀ kind ∈ TokenKind.delimiters, kind ≠ .genericOpen := by decide
  obtain ⟨hsteps, hread⟩ := lexemeSteps_of_pieces hpieces (htrivia _ hs.2)
  have hbefore : .typeArgs ∉ ctx.regions := h.not_mem_of_symbol hs.1 hs.2
  refine ⟨_, hsteps, rfl, hopens, hread, outside_of_not_mem hbefore, outside_of_not_mem ?_⟩
  rw [hread, observePiece, regions_observe]
  exact not_mem_regionsAfter h.header hbefore (hopen _ hs.2) _

theorem eq_true_of_parenRegion {opensLambda : Bool}
    (h : ctx.parenRegion opensLambda = .lambdaParams) : opensLambda = true := by
  unfold parenRegion at h
  split_ifs at h
  assumption

/-! ## The invariant -/

/-- The lexemes ahead close the parameters of each lambda that are open: no braces are open
inside of them, and the scan that found their end in front of an arrow would still find it. -/
structure PromisesArrow (ctx : Context) (ahead : List Lexeme) : Prop where
  typeArgs : ∃ depth, ctx.Promised depth ahead
  lambdas : ∀ inner outer, ctx.outside = inner ++ .lambdaParams :: outer →
    (∀ region ∈ inner, region.bracket = .paren) ∧
      ∃ fuel, Lookahead.closesBeforeArrow fuel (inner.length + 1) ahead = true

/-- Where no type arguments are open, an invariant of the parameters that are open is enough. -/
theorem PromisesArrow.of_not_mem (header : ctx.HeaderWaitsForBody)
    (h : .typeArgs ∉ ctx.regions) (hlambda : .lambdaParams ∉ ctx.regions)
    (ahead : List Lexeme) : ctx.PromisesArrow ahead := by
  refine ⟨⟨0, promised_zero_iff.mpr ⟨header, h⟩⟩, fun inner outer houtside => ?_⟩
  rw [outside_of_not_mem h] at houtside
  rw [houtside] at hlambda
  exact absurd (List.mem_append_right _ List.mem_cons_self) hlambda

theorem promisesArrow_initial (ahead : List Lexeme) : initial.PromisesArrow ahead :=
  .of_not_mem headerWaitsForBody_initial List.not_mem_nil List.not_mem_nil ahead

theorem not_mem_of_forall_ne_append {α : Type} {x : α} {xs : List α}
    (h : ∀ inner outer, xs ≠ inner ++ x :: outer) : x ∉ xs := by
  intro hx
  obtain ⟨inner, outer, rfl⟩ := List.append_of_mem hx
  exact h inner outer rfl

theorem PromisesArrow.not_mem_of_nil (h : ctx.PromisesArrow []) :
    .lambdaParams ∉ ctx.regions := by
  obtain ⟨depth, hpromised⟩ := h.typeArgs
  refine not_mem_of_forall_ne_append fun inner outer hregions => ?_
  rw [← outside_of_not_mem hpromised.not_mem] at hregions
  obtain ⟨-, fuel, hfound⟩ := h.lambdas inner outer hregions
  rw [Lookahead.closesBeforeArrow_nil] at hfound
  cases hfound

theorem PromisesArrow.not_mem_of_stop (h : ctx.PromisesArrow (l :: ahead)) {s : Symbol}
    (hl : l.Delimits s) (hs : s ∈ Lookahead.lambdaStops) : .lambdaParams ∉ ctx.regions := by
  obtain ⟨depth, hpromised⟩ := h.typeArgs
  have hnot : .typeArgs ∉ ctx.regions := hpromised.not_mem_of_symbol hl.1 hl.2
  refine not_mem_of_forall_ne_append fun inner outer hregions => ?_
  rw [← outside_of_not_mem hnot] at hregions
  obtain ⟨-, fuel, hfound⟩ := h.lambdas inner outer hregions
  rw [Lookahead.closesBeforeArrow_stop hl hs] at hfound
  cases hfound

theorem PromisesArrow.lambdas_leftParen (h : ctx.PromisesArrow (l :: ahead))
    (hl : l.Delimits .leftParen) {region : Region}
    (hparen : region.bracket = .paren)
    (hopens : region = .lambdaParams → Lookahead.lambdaParams ahead = true)
    {inner outer : List Region}
    (hregions : region :: ctx.outside = inner ++ .lambdaParams :: outer) :
    (∀ region ∈ inner, region.bracket = .paren) ∧
      ∃ fuel, Lookahead.closesBeforeArrow fuel (inner.length + 1) ahead = true := by
  cases inner with
  | nil =>
    obtain ⟨hregion, -⟩ := List.cons.inj hregions
    exact ⟨fun _ hmem => absurd hmem List.not_mem_nil, _, hopens hregion⟩
  | cons region' inner =>
    rw [List.cons_append] at hregions
    obtain ⟨rfl, houter⟩ := List.cons.inj hregions
    obtain ⟨hinner, fuel, hfound⟩ := h.lambdas inner outer houter
    exact ⟨List.forall_mem_cons.mpr ⟨hparen, hinner⟩,
      Lookahead.closesBeforeArrow_leftParen hl hfound⟩

theorem PromisesArrow.lambdas_rightParen (h : ctx.PromisesArrow (l :: ahead))
    (hl : l.Delimits .rightParen) {region : Region} {inner outer : List Region}
    (hregions : ctx.outside = region :: (inner ++ .lambdaParams :: outer)) :
    region.bracket = .paren ∧ (∀ region ∈ inner, region.bracket = .paren) ∧
      ∃ fuel, Lookahead.closesBeforeArrow fuel (inner.length + 1) ahead = true := by
  obtain ⟨hinner, fuel, hfound⟩ := h.lambdas (region :: inner) outer hregions
  rw [List.forall_mem_cons] at hinner
  refine ⟨hinner.1, hinner.2, ?_⟩
  rcases Lookahead.closesBeforeArrow_rightParen hl hfound with ⟨hdepth, -⟩ | ⟨-, hgoes⟩
  · rw [List.length_cons] at hdepth
    omega
  · exact hgoes

theorem not_mem_endConstants {region : Region} (hregion : region.bracket ≠ .brace)
    {regions : List Region} (h : region ∉ regions) : region ∉ endConstants regions := by
  unfold endConstants
  split
  · rw [List.mem_cons, not_or] at h ⊢
    refine ⟨?_, h.2⟩
    rintro rfl
    exact hregion rfl
  · exact h

theorem not_mem_regionsAfter_stop (header : ctx.HeaderWaitsForBody)
    (h : .lambdaParams ∉ ctx.regions) {s : Symbol} (hs : s ∈ Lookahead.lambdaStops)
    (opensLambda : Bool) :
    .lambdaParams ∉ ctx.regionsAfter (Reading.symbolKind s) opensLambda := by
  simp only [Lookahead.lambdaStops, List.mem_cons, List.not_mem_nil, or_false] at hs
  rcases hs with rfl | rfl | rfl
  · exact not_mem_endConstants (by decide) h
  · show .lambdaParams ∉ ctx.braceRegion :: ctx.regions
    rw [List.mem_cons, not_or]
    refine ⟨fun hregion => ?_, h⟩
    have hbracket := bracket_braceRegion header
    rw [← hregion] at hbracket
    cases hbracket
  · exact fun hmem => h (List.mem_of_mem_tail hmem)

/-- **Every lexeme keeps the promise.** -/
theorem keptByReading_promisesArrow (mode : Mode) : KeptByReading mode PromisesArrow := by
  intro ctx l ahead h
  have hnext := keptByReading_promised mode ctx l ahead h.typeArgs
  by_cases htrivia : l.isTrivia = true
  · rw [if_pos htrivia] at h
    rw [(lexemeSteps_of_isTrivia htrivia mode ctx ahead).2]
    exact h
  rw [if_neg htrivia] at h
  obtain ⟨depth, hpromised⟩ := h.typeArgs
  refine ⟨hnext, fun inner outer houtside => ?_⟩
  by_cases hdelimits : ∃ s, l.Delimits s
  · obtain ⟨s, hs⟩ := hdelimits
    obtain ⟨piece, -, hkind, hopens, hread, hbefore, hafter⟩ := hpromised.read_delimiter hs mode
    rw [hafter, hread, observePiece, regions_observe, hkind] at houtside
    rcases Symbol.mem_of_delimiter hs.2 with rfl | rfl | hstop
    · have hregions : ctx.parenRegion piece.opensLambda :: ctx.outside =
          inner ++ .lambdaParams :: outer := by
        rw [hbefore]
        exact houtside
      exact h.lambdas_leftParen hs (bracket_parenRegion ctx piece.opensLambda)
        (fun hregion => hopens (eq_true_of_parenRegion hregion)) hregions
    · obtain ⟨region, hregions⟩ : ∃ region, ctx.regions =
          region :: (inner ++ .lambdaParams :: outer) := by
        change ctx.regions.tail = _ at houtside
        cases hregions : ctx.regions with
        | nil =>
          rw [hregions] at houtside
          exact absurd houtside.symm (List.append_ne_nil_of_right_ne_nil _ (List.cons_ne_nil _ _))
        | cons region regions =>
          rw [hregions] at houtside
          exact ⟨region, congrArg (region :: ·) houtside⟩
      exact (h.lambdas_rightParen hs (hbefore.trans hregions)).2
    · have hnot := not_mem_regionsAfter_stop hpromised.header (h.not_mem_of_stop hs hstop) hstop
        piece.opensLambda
      rw [houtside] at hnot
      exact absurd (List.mem_append_right _ List.mem_cons_self) hnot
  · rw [not_exists] at hdelimits
    rw [(outside_read hdelimits mode ctx ahead).1] at houtside
    obtain ⟨hinner, fuel, hfound⟩ := h.lambdas inner outer houtside
    exact ⟨hinner, Lookahead.closesBeforeArrow_of_not_delimits hdelimits hfound⟩

end Context

end JavaHighlight
