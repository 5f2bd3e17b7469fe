import JavaHighlight.Proofs.Regions
import JavaHighlight.Proofs.TypeArguments.Words

/-!
# The promise to close type arguments

A `<` that stands in no type arguments opens some only if the lexemes ahead promise to close
them. `Context.Promised` is that promise as an invariant of reading: the open lists of type
arguments are all innermost, and the scan that found their end would still find it. Every
lexeme keeps it (`Context.Promised.keeps`), so a run closes what it opens
(`Progress.closes_run`).
-/

namespace JavaHighlight

/-! ## The promise to close -/

namespace Context

/-- Exactly `depth` lists of type arguments are open, all of them innermost, and the lexemes
ahead were found to close them. -/
structure Promised (ctx : Context) (depth : Nat) (ahead : List Lexeme) : Prop where
  header : ctx.HeaderWaitsForBody
  angles : ∃ outer, ctx.regions = List.replicate depth .typeArgs ++ outer ∧ .typeArgs ∉ outer
  found : depth = 0 ∨ ∃ fuel, Lookahead.resolveAngle fuel depth ahead = .opensTypeArgs

variable {ctx : Context} {depth : Nat} {ahead : List Lexeme}

theorem promised_initial (ahead : List Lexeme) : initial.Promised 0 ahead :=
  ⟨headerWaitsForBody_initial, ⟨[], rfl, by simp⟩, .inl rfl⟩

theorem promised_zero_iff : ctx.Promised 0 ahead ↔
    ctx.HeaderWaitsForBody ∧ .typeArgs ∉ ctx.regions := by
  constructor
  · rintro ⟨hheader, ⟨outer, hregions, houter⟩, -⟩
    rw [List.replicate_zero, List.nil_append] at hregions
    exact ⟨hheader, hregions ▸ houter⟩
  · rintro ⟨hheader, hregions⟩
    exact ⟨hheader, ⟨ctx.regions, rfl, hregions⟩, .inl rfl⟩

theorem Promised.depth_eq_zero (h : ctx.Promised depth []) : depth = 0 := by
  rcases h.found with h | ⟨fuel, h⟩
  · exact h
  · cases fuel <;> cases h

theorem Promised.not_mem (h : ctx.Promised depth []) : .typeArgs ∉ ctx.regions := by
  have hzero := h.depth_eq_zero
  subst hzero
  exact (promised_zero_iff.mp h).2

theorem Promised.openAngles_eq (h : ctx.Promised depth ahead) : ctx.openAngles = depth := by
  obtain ⟨outer, hregions, houter⟩ := h.angles
  have hstop : outer.takeWhile (· = Region.typeArgs) = [] := by
    cases outer with
    | nil => rfl
    | cons region outer =>
      rw [List.takeWhile_cons_of_neg]
      rw [List.mem_cons, not_or] at houter
      simpa using Ne.symm houter.1
  unfold openAngles
  rw [hregions, List.takeWhile_append_of_pos, hstop, List.append_nil, List.length_replicate]
  intro region hregion
  simpa using List.eq_of_mem_replicate hregion

theorem Promised.top_eq_iff (h : ctx.Promised depth ahead) :
    ctx.top = some .typeArgs ↔ depth ≠ 0 := by
  obtain ⟨outer, hregions, houter⟩ := h.angles
  unfold top
  rw [hregions]
  cases depth with
  | zero =>
    cases outer with
    | nil => simp
    | cons region outer =>
      rw [List.mem_cons, not_or] at houter
      simpa using Ne.symm houter.1
  | succ depth => simp [List.replicate_succ]

/-- A token that is no bracket and no semicolon keeps the promise of all that is ahead. -/
theorem Promised.observe_neutral (h : ctx.Promised depth ahead) {kind : TokenKind}
    (hkind : kind ∉ TokenKind.delimiters) (hangle : kind.isAngle = false) (text : String)
    (opensLambda : Bool) : (ctx.observe kind text opensLambda).Promised depth ahead := by
  refine ⟨h.header.observe _ _ _, ?_, h.found⟩
  rw [regions_observe, regionsAfter_of_neutral hkind hangle]
  exact h.angles

theorem Promised.observe_genericOpen (h : ctx.Promised depth ahead) {ahead' : List Lexeme}
    (hfound : ∃ fuel, Lookahead.resolveAngle fuel (depth + 1) ahead' = .opensTypeArgs)
    (text : String) (opensLambda : Bool) :
    (ctx.observe .genericOpen text opensLambda).Promised (depth + 1) ahead' := by
  obtain ⟨outer, hregions, houter⟩ := h.angles
  refine ⟨h.header.observe _ _ _, ⟨outer, ?_, houter⟩, .inr hfound⟩
  rw [regions_observe, List.replicate_succ, List.cons_append, ← hregions]
  rfl

theorem angles_observe_genericClose
    (h : ∃ outer, ctx.regions = List.replicate (depth + 1) .typeArgs ++ outer ∧
      .typeArgs ∉ outer) (text : String) (opensLambda : Bool) :
    ∃ outer, (ctx.observe .genericClose text opensLambda).regions =
      List.replicate depth .typeArgs ++ outer ∧ .typeArgs ∉ outer := by
  obtain ⟨outer, hregions, houter⟩ := h
  have htop : ctx.top = some .typeArgs := by
    rw [top, hregions]
    rfl
  refine ⟨outer, ?_, houter⟩
  rw [regions_observe, regionsAfter, if_pos htop, hregions]
  rfl

theorem angles_observePieces_closing {n : Nat}
    (h : ∃ outer, ctx.regions = List.replicate (depth + n) .typeArgs ++ outer ∧
      .typeArgs ∉ outer) (split : Bool) :
    ∃ outer, (ctx.observePieces (List.replicate n (Piece.closingAngle split))).regions =
      List.replicate depth .typeArgs ++ outer ∧ .typeArgs ∉ outer := by
  induction n generalizing ctx with
  | zero => exact h
  | succ n ih =>
    rw [List.replicate_succ, observePieces_cons]
    exact ih (angles_observe_genericClose h _ _)

end Context

/-! ## Reading keeps the promise -/

namespace Lookahead

/-- What the first lexeme of those that are found to close type arguments can be. -/
theorem resolveAngle_succ_cons {fuel depth : Nat} {l : Lexeme} {ls : List Lexeme}
    (h : resolveAngle (fuel + 1) depth (l :: ls) = .opensTypeArgs) :
    (l.isSymbol .less = true ∧ resolveAngle fuel (depth + 1) ls = .opensTypeArgs) ∨
    (l.shape.closingAngles = 0 ∧ mayStandInTypeArgs l = true ∧
      resolveAngle fuel depth ls = .opensTypeArgs) ∨
    (l.shape.closingAngles ≠ 0 ∧ l.shape.closingAngles < depth ∧
      resolveAngle fuel (depth - l.shape.closingAngles) ls = .opensTypeArgs) ∨
    (l.shape.closingAngles ≠ 0 ∧ l.shape.closingAngles = depth) := by
  unfold resolveAngle at h
  dsimp only at h
  split_ifs at h with hless hzero hstand hlt heq
  · exact .inl ⟨hless, h⟩
  · exact .inr (.inl ⟨hzero, hstand, h⟩)
  · exact .inr (.inr (.inl ⟨hzero, hlt, h⟩))
  · exact .inr (.inr (.inr ⟨hzero, heq⟩))

theorem resolveAngle_cons {fuel depth : Nat} {l : Lexeme} {ls : List Lexeme}
    (h : resolveAngle fuel depth (l :: ls) = .opensTypeArgs) :
    (l.isSymbol .less = true ∧ ∃ fuel, resolveAngle fuel (depth + 1) ls = .opensTypeArgs) ∨
    (l.shape.closingAngles = 0 ∧ mayStandInTypeArgs l = true ∧
      ∃ fuel, resolveAngle fuel depth ls = .opensTypeArgs) ∨
    (l.shape.closingAngles ≠ 0 ∧ l.shape.closingAngles < depth ∧
      ∃ fuel, resolveAngle fuel (depth - l.shape.closingAngles) ls = .opensTypeArgs) ∨
    (l.shape.closingAngles ≠ 0 ∧ l.shape.closingAngles = depth) := by
  cases fuel with
  | zero => cases h
  | succ fuel =>
    rcases resolveAngle_succ_cons h with
      ⟨hless, h⟩ | ⟨hzero, hstand, h⟩ | ⟨hne, hlt, h⟩ | ⟨hne, heq⟩
    · exact .inl ⟨hless, fuel, h⟩
    · exact .inr (.inl ⟨hzero, hstand, fuel, h⟩)
    · exact .inr (.inr (.inl ⟨hne, hlt, fuel, h⟩))
    · exact .inr (.inr (.inr ⟨hne, heq⟩))

theorem isWord_of_mayStandInTypeArgs {l : Lexeme} (h : mayStandInTypeArgs l = true) :
    (l.shape = .word ∧ (Keyword.isReserved l.word = false ∨
      Keyword.isTypeArgumentWord l.word = true)) ∨
    ∃ s ∈ typeArgSymbols, l.shape = .symbol s := by
  unfold mayStandInTypeArgs at h
  split at h
  · next hl => exact .inl ⟨hl, by simpa using h⟩
  · next s hl => exact .inr ⟨s, by simpa using h, hl⟩
  · cases h

end Lookahead

namespace Keyword

theorem isLiteral_of_isTypeArgumentWord {word : String} (h : isTypeArgumentWord word = true)
    {kind : TokenKind} (hkind : kind? word = some kind) : kind.isLiteral = false := by
  have hword : word ∈ "extends" :: "super" :: primitiveTypes := by
    simpa [isTypeArgumentWord, or_assoc] using h
  have key : ∀ word ∈ "extends" :: "super" :: primitiveTypes,
      (kind? word).all fun kind => kind.isLiteral = false := by decide
  have hall := key word hword
  rw [hkind] at hall
  simpa using hall

end Keyword

namespace Reading

/-- A word is read as a literal only if it is a reserved word. -/
theorem kind?_of_isLiteral {ctx : Context} {l : Lexeme} {ahead : List Lexeme} {piece : Piece}
    (h : piece ∈ (ofWord ctx l ahead).pieces) (hliteral : piece.kind.isLiteral = true) :
    Keyword.kind? l.word = some piece.kind := by
  have hplain : ∀ kind, piece ∈ (plain l kind).pieces → piece.kind = kind := by
    intro kind hpiece
    rw [List.mem_singleton.mp hpiece]
    rfl
  unfold ofWord at h
  split at h
  · rw [hplain _ h] at hliteral
    cases hliteral
  · split at h
    · next kind hkind => rw [hkind, hplain _ h]
    · split at h
      · rw [hplain _ h] at hliteral
        cases hliteral
      · split at h
        · next kind hkind =>
          rw [List.mem_singleton.mp h] at hliteral
          rcases restrictedKind?_mem hkind with rfl | rfl <;> cases hliteral
        · rw [hplain _ h] at hliteral
          unfold nameKind at hliteral
          split_ifs at hliteral <;> cases hliteral

/-- What may stand in type arguments is read as no bracket, no semicolon and no literal. -/
theorem breaksTypeArgs_of_mayStand {mode : Mode} {ctx : Context} {l : Lexeme}
    {ahead : List Lexeme} (h : Lookahead.mayStandInTypeArgs l = true) {piece : Piece}
    (hpiece : piece ∈ (ofLexeme mode ctx l ahead).pieces) :
    piece.kind.breaksTypeArgs = false ∧ piece.kind.isAngle = false := by
  have hkind := kind_mem_kinds hpiece
  rcases Lookahead.isWord_of_mayStandInTypeArgs h with ⟨hl, hword⟩ | ⟨s, hs, hl⟩
  · have hliteral : piece.kind.isLiteral = false := by
      rw [Bool.eq_false_iff]
      intro hliteral
      rw [ofLexeme, hl] at hpiece
      have hkind? := kind?_of_isLiteral hpiece hliteral
      rcases hword with hword | hword
      · rw [Keyword.isReserved, hkind?] at hword
        cases hword
      · rw [Keyword.isLiteral_of_isTypeArgumentWord hword hkind?] at hliteral
        cases hliteral
    have key : ∀ kind ∈ Shape.wordKinds, kind.isLiteral = false →
        kind.breaksTypeArgs = false ∧ kind.isAngle = false := by decide
    rw [hl] at hkind
    exact key _ hkind hliteral
  · have key : ∀ s ∈ Lookahead.typeArgSymbols, ∀ kind ∈ s.kinds,
        kind.breaksTypeArgs = false ∧ kind.isAngle = false := by decide
    rw [hl] at hkind
    exact key s hs _ hkind

theorem ofLexeme_of_less {l : Lexeme} (h : l.shape = .symbol .less) (mode : Mode)
    (ctx : Context) (ahead : List Lexeme) : ofLexeme mode ctx l ahead = ofLess ctx l ahead := by
  rw [ofLexeme, h]
  rfl

/-- Outside of type arguments a `<` opens some only if the lexemes ahead close them. -/
theorem angle_of_genericOpen {ctx : Context} (htop : ctx.top ≠ some .typeArgs) {l : Lexeme}
    {ahead : List Lexeme} {piece : Piece} (h : piece ∈ (ofLess ctx l ahead).pieces)
    (hkind : piece.kind = .genericOpen) : Lookahead.angle ahead = .opensTypeArgs := by
  unfold ofLess at h
  rw [if_neg htop] at h
  split_ifs at h
  · split at h
    · assumption
    · rw [List.mem_singleton.mp h] at hkind
      cases hkind
    · rw [List.mem_singleton.mp h] at hkind
      cases hkind
  · rw [List.mem_singleton.mp h] at hkind
    cases hkind

end Reading

namespace Context

variable {mode : Mode} {ctx : Context} {depth : Nat} {l : Lexeme} {ahead : List Lexeme}

/-- Reading a lexeme leads from `depth` open lists of type arguments to a state in which the
promise is kept, by pieces that fit in front of whatever closes the lists that are open then. -/
def KeepsPromise (mode : Mode) (ctx : Context) (depth : Nat) (l : Lexeme)
    (ahead : List Lexeme) : Prop :=
  ∃ depth', (ctx.read mode l ahead).Promised depth' ahead ∧
    ∀ kinds, Closes depth' kinds →
      Closes depth ((Reading.ofLexeme mode ctx l ahead).pieces.map Piece.kind ++ kinds)

theorem keepsPromise_of_neutral {ahead' : List Lexeme} (h : ctx.Promised depth ahead')
    (hfound : depth = 0 ∨ ∃ fuel, Lookahead.resolveAngle fuel depth ahead = .opensTypeArgs)
    {piece : Piece} (hpieces : (Reading.ofLexeme mode ctx l ahead).pieces = [piece])
    (hbreaks : piece.kind.breaksTypeArgs = false) (hangle : piece.kind.isAngle = false) :
    KeepsPromise mode ctx depth l ahead := by
  have hdelimiter : piece.kind ∉ TokenKind.delimiters := by
    intro hmem
    unfold TokenKind.breaksTypeArgs at hbreaks
    simp [hmem] at hbreaks
  have hread := h.observe_neutral hdelimiter hangle (String.ofList piece.text) piece.opensLambda
  refine ⟨depth, ⟨?_, ?_, hfound⟩, fun kinds hkinds => ?_⟩
  · unfold read
    rw [hpieces]
    exact hread.header
  · unfold read
    rw [hpieces]
    exact hread.angles
  · rw [hpieces]
    exact .other hangle (.inr hbreaks) hkinds

theorem keepsPromise_of_genericOpen {ahead' : List Lexeme} (h : ctx.Promised depth ahead')
    (hfound : ∃ fuel, Lookahead.resolveAngle fuel (depth + 1) ahead = .opensTypeArgs)
    {piece : Piece} (hpieces : (Reading.ofLexeme mode ctx l ahead).pieces = [piece])
    (hkind : piece.kind = .genericOpen) : KeepsPromise mode ctx depth l ahead := by
  refine ⟨depth + 1, ?_, fun kinds hkinds => ?_⟩
  · unfold read
    rw [hpieces, observePieces_cons, observePieces_nil, observePiece, hkind]
    exact h.observe_genericOpen hfound _ _
  · rw [hpieces, List.map_singleton, hkind]
    exact .opening hkinds

theorem ofClosingAngles_of_outside (h : ctx.Promised 0 ahead) (l : Lexeme) :
    Reading.ofClosingAngles ctx l = .plain l .operator := by
  unfold Reading.ofClosingAngles
  rw [h.openAngles_eq]
  exact if_pos (Nat.min_zero _)

/-- Inside of type arguments a run that is no longer than what is open closes as many. -/
theorem ofClosingAngles_of_inside {ahead' : List Lexeme} (h : ctx.Promised depth ahead')
    (hangles : l.shape.closingAngles ≠ 0) (hle : l.shape.closingAngles ≤ depth) :
    (Reading.ofClosingAngles ctx l).pieces =
      List.replicate l.shape.closingAngles
        (Piece.closingAngle (decide (1 < l.shape.closingAngles))) := by
  have hmin : min l.shape.closingAngles ctx.openAngles = l.shape.closingAngles := by
    rw [h.openAngles_eq]
    exact Nat.min_eq_left hle
  unfold Reading.ofClosingAngles
  dsimp only
  rw [hmin, if_neg hangles, if_neg (Nat.lt_irrefl _), List.append_nil]

theorem keepsPromise_of_closingAngles {rest : Nat} {ahead' : List Lexeme}
    (h : ctx.Promised depth ahead') (hangles : l.shape.closingAngles ≠ 0)
    (hdepth : depth = rest + l.shape.closingAngles)
    (hfound : rest = 0 ∨ ∃ fuel, Lookahead.resolveAngle fuel rest ahead = .opensTypeArgs) :
    KeepsPromise mode ctx depth l ahead := by
  subst hdepth
  have hpieces := ofClosingAngles_of_inside h hangles (Nat.le_add_left _ _)
  refine ⟨rest, ⟨h.header.observePieces _, ?_, hfound⟩, fun kinds hkinds => ?_⟩
  · unfold read
    rw [Reading.ofLexeme_of_closingAngles hangles, hpieces]
    exact angles_observePieces_closing h.angles _
  · rw [Reading.ofLexeme_of_closingAngles hangles, hpieces, List.map_replicate]
    exact hkinds.replicate_closing _

theorem keepsPromise_of_outside (h : ctx.Promised 0 (l :: ahead)) :
    KeepsPromise mode ctx 0 l ahead := by
  have hzero : ctx.Promised 0 ahead := promised_zero_iff.mpr (promised_zero_iff.mp h)
  by_cases hend : l.shape = .endOfInput
  · refine ⟨0, ?_, fun kinds hkinds => ?_⟩
    · unfold read
      rw [Reading.ofLexeme, hend]
      exact hzero
    · rw [Reading.ofLexeme, hend]
      exact hkinds
  by_cases hangles : l.shape.closingAngles = 0
  · obtain ⟨kind, hkind, flags, opensLambda, hpieces⟩ :=
      Reading.isOnePiece_ofLexeme hangles hend mode ctx ahead
    by_cases hopen : kind = .genericOpen
    · subst hopen
      have hless := Shape.eq_less_of_genericOpen hkind
      have htop : ctx.top ≠ some .typeArgs := fun htop => h.top_eq_iff.mp htop rfl
      refine keepsPromise_of_genericOpen h ⟨Lookahead.budget, ?_⟩ hpieces rfl
      rw [Reading.ofLexeme_of_less hless] at hpieces
      exact Reading.angle_of_genericOpen htop (by rw [hpieces]; exact List.mem_singleton_self _) rfl
    · have hclose : kind ≠ .genericClose := by
        rintro rfl
        exact Shape.closingAngles_of_genericClose hkind hangles
      refine ⟨0, promised_zero_iff.mpr ⟨h.header.observePieces _, ?_⟩, fun kinds hkinds => ?_⟩
      · unfold read
        rw [hpieces, observePieces_cons, observePieces_nil, observePiece, regions_observe]
        obtain ⟨hheader, hregions⟩ := promised_zero_iff.mp h
        exact not_mem_regionsAfter hheader hregions hopen _
      · rw [hpieces]
        exact .other (by simp [TokenKind.isAngle, hopen, hclose]) (.inl rfl) hkinds
  · have hpieces : (Reading.ofLexeme mode ctx l ahead).pieces = [.ofLexeme l .operator] := by
      rw [Reading.ofLexeme_of_closingAngles hangles, ofClosingAngles_of_outside h]
      rfl
    exact keepsPromise_of_neutral h (.inl rfl) hpieces rfl rfl

theorem keepsPromise_of_inside (h : ctx.Promised depth (l :: ahead)) (hdepth : depth ≠ 0) :
    KeepsPromise mode ctx depth l ahead := by
  obtain ⟨fuel, hfound⟩ := h.found.resolve_left hdepth
  rcases Lookahead.resolveAngle_cons hfound with
    ⟨hless, hfound⟩ | ⟨hangles, hstand, hfound⟩ | ⟨hangles, hlt, hfound⟩ | ⟨hangles, heq⟩
  · have hl : l.shape = .symbol .less := of_decide_eq_true hless
    have hpieces : (Reading.ofLexeme mode ctx l ahead).pieces = [.ofLexeme l .genericOpen] := by
      rw [Reading.ofLexeme_of_less hl, Reading.ofLess, if_pos (h.top_eq_iff.mpr hdepth)]
      rfl
    exact keepsPromise_of_genericOpen h hfound hpieces rfl
  · have hend : l.shape ≠ .endOfInput := by
      intro hend
      rw [Lookahead.mayStandInTypeArgs, hend] at hstand
      cases hstand
    obtain ⟨kind, hkind, flags, opensLambda, hpieces⟩ :=
      Reading.isOnePiece_ofLexeme hangles hend mode ctx ahead
    obtain ⟨hbreaks, hangle⟩ := Reading.breaksTypeArgs_of_mayStand hstand
      (hpieces ▸ List.mem_singleton_self _)
    exact keepsPromise_of_neutral h (.inr hfound) hpieces hbreaks hangle
  · exact keepsPromise_of_closingAngles h hangles (by omega) (.inr hfound)
  · exact keepsPromise_of_closingAngles h hangles (by omega) (.inl rfl)

theorem keepsPromise_of_isTrivia (h : ctx.Promised depth ahead) (hl : l.isTrivia = true) :
    KeepsPromise mode ctx depth l ahead := by
  obtain ⟨hangles, hend⟩ := Shape.closingAngles_of_isTrivia hl
  obtain ⟨kind, hkind, flags, opensLambda, hpieces⟩ :=
    Reading.isOnePiece_ofLexeme hangles hend mode ctx ahead
  have key : ∀ kind ∈ TokenKind.all, kind.isTrivia = true →
      kind.breaksTypeArgs = false ∧ kind.isAngle = false := by decide
  obtain ⟨hbreaks, hangle⟩ := key kind kind.mem_all (Shape.isTrivia_of_mem_kinds hl hkind)
  exact keepsPromise_of_neutral h h.found hpieces hbreaks hangle

/-- Every lexeme keeps the promise. -/
theorem Promised.keeps (h : ctx.Promised depth (if l.isTrivia then ahead else l :: ahead))
    (mode : Mode) : KeepsPromise mode ctx depth l ahead := by
  cases hl : l.isTrivia with
  | true =>
    rw [hl, if_pos rfl] at h
    exact keepsPromise_of_isTrivia h hl
  | false =>
    rw [hl, if_neg Bool.false_ne_true] at h
    by_cases hdepth : depth = 0
    · subst hdepth
      exact keepsPromise_of_outside h
    · exact keepsPromise_of_inside h hdepth

/-- A run of closing brackets is one closing bracket each, or one operator. -/
theorem Promised.pieces_of_closingAngles (h : ctx.Promised depth (l :: ahead))
    (hangles : l.shape.closingAngles ≠ 0) (mode : Mode) :
    (Reading.ofLexeme mode ctx l ahead).pieces =
        List.replicate l.shape.closingAngles
          (Piece.closingAngle (decide (1 < l.shape.closingAngles))) ∨
      (Reading.ofLexeme mode ctx l ahead).pieces = [.ofLexeme l .operator] := by
  rw [Reading.ofLexeme_of_closingAngles hangles]
  by_cases hdepth : depth = 0
  · subst hdepth
    rw [ofClosingAngles_of_outside h]
    exact .inr rfl
  · refine .inl (ofClosingAngles_of_inside h hangles ?_)
    obtain ⟨fuel, hfound⟩ := h.found.resolve_left hdepth
    rcases Lookahead.resolveAngle_cons hfound with
      ⟨hless, -⟩ | ⟨hzero, -⟩ | ⟨-, hlt, -⟩ | ⟨-, heq⟩
    · rw [of_decide_eq_true hless] at hangles
      exact absurd rfl hangles
    · exact absurd hzero hangles
    · exact Nat.le_of_lt hlt
    · exact Nat.le_of_eq heq

theorem keptByReading_promised (mode : Mode) :
    KeptByReading mode fun ctx ahead => ∃ depth, ctx.Promised depth ahead := by
  rintro ctx l ahead ⟨depth, h⟩
  obtain ⟨depth', h', -⟩ := h.keeps mode
  exact ⟨depth', h'⟩

end Context

/-- A run closes the lists of type arguments that are open in front of it and all those that
it opens itself. -/
theorem Progress.closes_run {mode : Mode} {index : LineIndex} (progress : Progress)
    {depth : Nat} {ls : List Lexeme}
    (h : progress.context.Promised depth (ls.filter (·.isSignificant))) (start : Nat) :
    Closes depth
      ((progress.run mode index (Occurrence.ofLexemes start ls)).1.tokens.map Token.kind) := by
  induction ls generalizing start progress depth with
  | nil =>
    have hzero : depth = 0 := h.depth_eq_zero
    subst hzero
    exact .nil
  | cons l ls ih =>
    rw [Lexeme.filter_isSignificant_cons] at h
    obtain ⟨depth', h', hcloses⟩ := h.keeps mode
    rw [Occurrence.ofLexemes, run, Emission.tokens_append, List.map_append, map_kind_emit,
      Occurrence.significant_ofLexemes]
    refine hcloses _ (ih _ ?_ _)
    rw [context_emit]
    exact h'

end JavaHighlight
