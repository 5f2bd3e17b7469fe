import JavaHighlight.Proofs.LineReading
import JavaHighlight.Proofs.Lines.Agreement
import JavaHighlight.Proofs.Meaning.Insensitive
import JavaHighlight.Proofs.Tiling.Lossless

/-!
# Steps

A step is a piece that is not trivia, with the context in front of it. The steps of a stream and
of a line are what their significant tokens show (`TokenStream.shows_steps`,
`Line.shows_steps`), so that a statement about steps is one about tokens and the context between
them. Trivia leaves no step behind: the steps of a run are the script of its significant lexemes
(`Progress.steps_ofLexemes`), and a place in a script is a place in one of these lexemes
(`Context.script_split`).
-/

namespace JavaHighlight

/-- A piece that is not trivia with the context in front of it. -/
structure Step where
  before : Context
  piece : Piece
  deriving DecidableEq, Repr

namespace Step

def kind (s : Step) : TokenKind :=
  s.piece.kind

def text (s : Step) : String :=
  String.ofList s.piece.text

def after (s : Step) : Context :=
  s.before.observePiece s.piece

/-- How a step fails to close what is innermost. -/
def issue? (s : Step) : Option BracketIssue :=
  s.before.issue? s.kind

/-- A step opens a region inside of what is open. -/
def Opens (s : Step) (region : Region) : Prop :=
  s.after.regions = region :: s.before.regions

instance (s : Step) (region : Region) : Decidable (s.Opens region) :=
  inferInstanceAs (Decidable (_ = _))

theorem regions_after (s : Step) :
    s.after.regions = s.before.regionsAfter s.kind s.piece.opensLambda :=
  Context.regions_observe _ _ _ _

theorem after_eq {s : Step} (h : s.kind.isTrivia = false) :
    s.after = { s.after with
      header := s.before.headerAfter s.kind s.text
      typeNameAwaited := (s.before.declares? s.kind s.text).isSome
      annotationName := s.before.annotationAfter s.kind s.text
      constantReady := s.before.constantReadyAfter s.kind
      newDepths := s.before.newDepthsAfter s.kind
      anonymousBodyReady := s.before.closesNew s.kind
      last := some s.kind } := by
  have hkind : s.piece.kind.isTrivia = false := h
  unfold after Context.observePiece Context.observe
  rw [if_neg (by rw [hkind]; exact Bool.false_ne_true)]
  rfl

theorem header_after {s : Step} (h : s.kind.isTrivia = false) :
    s.after.header = s.before.headerAfter s.kind s.text := by
  rw [after_eq h]

theorem typeNameAwaited_after {s : Step} (h : s.kind.isTrivia = false) :
    s.after.typeNameAwaited = (s.before.declares? s.kind s.text).isSome := by
  rw [after_eq h]

theorem annotationName_after {s : Step} (h : s.kind.isTrivia = false) :
    s.after.annotationName = s.before.annotationAfter s.kind s.text := by
  rw [after_eq h]

theorem constantReady_after {s : Step} (h : s.kind.isTrivia = false) :
    s.after.constantReady = s.before.constantReadyAfter s.kind := by
  rw [after_eq h]

theorem newDepths_after {s : Step} (h : s.kind.isTrivia = false) :
    s.after.newDepths = s.before.newDepthsAfter s.kind := by
  rw [after_eq h]

theorem anonymousBodyReady_after {s : Step} (h : s.kind.isTrivia = false) :
    s.after.anonymousBodyReady = s.before.closesNew s.kind := by
  rw [after_eq h]

theorem last_after {s : Step} (h : s.kind.isTrivia = false) : s.after.last = some s.kind := by
  rw [after_eq h]

end Step

/-! ## The steps of pieces -/

namespace Context

def steps (ctx : Context) (pieces : List Piece) : List Step :=
  ((ctx.observations pieces).filter fun x => !x.2.kind.isTrivia).map fun x => ⟨x.1, x.2⟩

variable {ctx : Context} {piece : Piece} {pieces : List Piece} {s : Step}

theorem steps_nil (ctx : Context) : ctx.steps [] = [] := rfl

theorem steps_cons_of_significant (h : piece.kind.isTrivia = false) (ctx : Context)
    (pieces : List Piece) :
    ctx.steps (piece :: pieces) = ⟨ctx, piece⟩ :: (ctx.observePiece piece).steps pieces := by
  unfold steps
  rw [observations, List.filter_cons_of_pos (by rw [h]; rfl), List.map_cons]

theorem steps_cons_of_isTrivia (h : piece.kind.isTrivia = true) (ctx : Context)
    (pieces : List Piece) : ctx.steps (piece :: pieces) = ctx.steps pieces := by
  have hctx : ctx.observePiece piece = ctx := observe_of_isTrivia h ctx _ _
  unfold steps
  rw [observations, List.filter_cons_of_neg (by simp [h]), hctx]

theorem mem_of_mem_steps (h : s ∈ ctx.steps pieces) :
    (s.before, s.piece) ∈ ctx.observations pieces ∧ s.kind.isTrivia = false := by
  obtain ⟨x, hx, rfl⟩ := List.mem_map.mp h
  obtain ⟨hx, htrivia⟩ := List.mem_filter.mp hx
  refine ⟨hx, ?_⟩
  simpa [Step.kind] using htrivia

theorem piece_mem_of_mem_steps (h : s ∈ ctx.steps pieces) : s.piece ∈ pieces := by
  rw [← map_snd_observations ctx pieces]
  exact List.mem_map_of_mem (mem_of_mem_steps h).1

end Context

/-! ## What tokens show -/

/-- A token of a source shows a step: it is of the same kind, it is marked as an error if its
piece is or fails to close what is innermost, and it has the same text, unless it is a byte of a
character that was cut in two and has none. -/
structure Token.Shows (source : String) (token : Token) (s : Step) : Prop where
  kind : token.kind = s.kind
  error : token.flags.error = (s.piece.flags.error || s.issue?.isSome)
  text : s.piece.text ≠ [] → token.text source = s.text

/-- A token stands where its source has the text of a piece, if the piece has any. -/
def Piece.ShownBy (source : String) (piece : Piece) (token : Token) : Prop :=
  piece.text ≠ [] → token.text source = String.ofList piece.text

namespace Progress

variable {source : String}

theorem shows_emitPieces {index : LineIndex} {start : Nat} {pieces : List Piece}
    {progress : Progress}
    (h : List.Forall₂ (Piece.ShownBy source) pieces
      (progress.emitPieces index start pieces).1.tokens) :
    List.Forall₂ (Token.Shows source)
      ((progress.emitPieces index start pieces).1.tokens.filter (!·.isTrivia))
      (progress.context.steps pieces) := by
  induction pieces generalizing start progress with
  | nil => exact .nil
  | cons piece pieces ih =>
    rw [emitPieces_cons] at h ⊢
    obtain ⟨hpiece, hpieces⟩ := List.forall₂_cons.mp h
    have hrest := ih hpieces
    rw [context_emitPiece] at hrest
    cases htrivia : piece.kind.isTrivia with
    | true =>
      have hctx : progress.context.observePiece piece = progress.context :=
        Context.observe_of_isTrivia htrivia _ _ _
      rw [Context.steps_cons_of_isTrivia htrivia, ← hctx]
      show List.Forall₂ _ (List.filter _ (Token.mk _ _ _ _ :: _)) _
      rw [List.filter_cons_of_neg (by simp [Token.isTrivia, htrivia])]
      exact hrest
    | false =>
      rw [Context.steps_cons_of_significant htrivia]
      show List.Forall₂ _ (List.filter _ (Token.mk _ _ _ _ :: _)) _
      rw [List.filter_cons_of_pos (by simp [Token.isTrivia, htrivia])]
      exact .cons ⟨rfl, rfl, hpiece⟩ hrest

end Progress

def Visit.steps (mode : Mode) (v : Visit) : List Step :=
  v.context.steps (v.reading mode).pieces

namespace Progress

variable {source : String} {mode : Mode} {index : LineIndex} {progress : Progress}

theorem shownBy_emit_stray {o : Occurrence} (h : o.lexeme = Lexeme.stray) :
    List.Forall₂ (Piece.ShownBy source)
      (Reading.ofLexeme mode progress.context o.lexeme o.ahead).pieces
      (progress.emit mode index o).1.tokens := by
  show List.Forall₂ _ _ (progress.emitPieces index o.start
    (Reading.ofLexeme mode progress.context o.lexeme o.ahead).pieces).1.tokens
  rw [h]
  exact .cons (fun hne => absurd rfl hne) .nil

theorem shownBy_emit {o : Occurrence}
    (h : o.lexeme = Lexeme.stray ∨ o.StandsIn source.toList) :
    List.Forall₂ (Piece.ShownBy source)
      (Reading.ofLexeme mode progress.context o.lexeme o.ahead).pieces
      (progress.emit mode index o).1.tokens := by
  rcases h with h | h
  · exact shownBy_emit_stray h
  · exact (emits_emit h mode index progress).imp fun piece token hemits _ => hemits.2.text_eq

/-- The steps of a run, lexeme by lexeme. -/
def steps (mode : Mode) (index : LineIndex) (progress : Progress) (os : List Occurrence) :
    List Step :=
  (progress.visits mode index os).flatMap (·.steps mode)

theorem shows_run {os : List Occurrence}
    (h : ∀ o ∈ os, o.lexeme = Lexeme.stray ∨ o.StandsIn source.toList) :
    List.Forall₂ (Token.Shows source)
      ((progress.run mode index os).1.tokens.filter (!·.isTrivia))
      (progress.steps mode index os) := by
  rw [tokens_run, List.filter_flatMap]
  refine forall₂_flatMap fun v hv => ?_
  have hv' := h v.occurrence (mem_of_mem_visits hv)
  exact shows_emitPieces (shownBy_emit hv')

end Progress

/-! ## Steps of a stream -/

namespace TokenStream

def steps (s : TokenStream) : List Step :=
  s.progress.steps .whole s.index s.upcoming

/-- What a stream reads are bytes of a character that was cut in two, and lexemes that stand in
the source. -/
theorem standsIn_of_mem_upcoming {source : String} {offset : Nat} {stoppable : Bool}
    {o : Occurrence} (h : o ∈ (openAt source offset stoppable).upcoming) :
    o.lexeme = Lexeme.stray ∨ o.StandsIn source.toList := by
  let n := min offset (Text.byteSize source.toList)
  have hn : n ≤ Text.byteSize source.toList := Nat.min_le_right _ _
  obtain ⟨front, hfront, hsize⟩ := Text.exists_append_dropBytes hn
  have hupcoming : (openAt source offset stoppable).upcoming =
      Occurrence.before
          ((Lexeme.ofText (Text.dropBytes n source.toList).2).filter (·.isSignificant)) n
          (List.replicate (Text.dropBytes n source.toList).1 Lexeme.stray) ++
        Occurrence.ofLexemes (Text.byteSize front)
          (Lexeme.ofText (Text.dropBytes n source.toList).2) := by
    show Occurrence.ofLexemes n (Lexeme.ofTextFrom offset source.toList) = _
    rw [← Lexeme.ofTextFrom_min, hsize]
    show Occurrence.ofLexemes n (List.replicate _ _ ++ _) = _
    rw [Occurrence.ofLexemes_append, Lexeme.totalLength_replicate_stray]
  rw [hupcoming, List.mem_append] at h
  rcases h with h | h
  · left
    have hlexeme := List.mem_map_of_mem (f := Occurrence.lexeme) h
    rw [Occurrence.map_lexeme_before] at hlexeme
    exact List.eq_of_mem_replicate hlexeme
  · right
    have hstands := Occurrence.standsIn_of_mem h
    rw [← hfront] at hstands
    exact hstands

theorem shows_steps (source : String) (offset : Nat) (stoppable : Bool) :
    List.Forall₂ (Token.Shows source)
      ((openAt source offset stoppable).drain false).significant
      (openAt source offset stoppable).steps := by
  rw [drain_openAt]
  exact Progress.shows_run fun o ho => standsIn_of_mem_upcoming ho

end TokenStream

/-! ## Steps of a line -/

namespace Line

/-- The part of a line that goes on with what is open, unless it is empty. -/
def carriedPieces (carry : Option Construct) (cs : List Char) : List Piece :=
  match carry with
  | none => []
  | some construct =>
    let part := carriedPart carry cs
    if part = [] then [] else [⟨construct.kind, part, Text.byteSize part, .none, false⟩]

/-- The steps of a line in the given state. -/
def steps (state : LineState) (cs : List Char) : List Step :=
  state.context.steps (carriedPieces state.carry cs) ++
    Progress.steps .line (LineIndex.ofText cs) ⟨contextOfRest state cs, 0⟩
      (occurrences state.carry cs)

theorem contextOfRest_eq_observePieces (state : LineState) (cs : List Char) :
    contextOfRest state cs = state.context.observePieces (carriedPieces state.carry cs) := by
  obtain ⟨carry, ctx⟩ := state
  cases carry with
  | none => rfl
  | some construct =>
    unfold contextOfRest carriedPieces contextAfter
    dsimp only
    split_ifs <;> rfl

/-- Going on with what is open takes a step only inside of a text block. -/
theorem kind_of_mem_carried {state : LineState} {cs : List Char} {s : Step}
    (h : s ∈ state.context.steps (carriedPieces state.carry cs)) : s.kind = .textBlock := by
  obtain ⟨-, htrivia⟩ := Context.mem_of_mem_steps h
  have hpiece := Context.piece_mem_of_mem_steps h
  unfold carriedPieces at hpiece
  split at hpiece
  · cases hpiece
  · next construct _ =>
    dsimp only at hpiece
    split_ifs at hpiece
    · cases hpiece
    · have hkind : s.kind = construct.kind := by
        rw [Step.kind, List.mem_singleton.mp hpiece]
      rw [hkind] at htrivia ⊢
      cases construct with
      | textBlock => rfl
      | _ => cases htrivia

theorem shows_carried (line : String) (state : LineState) :
    List.Forall₂ (Token.Shows line)
      ((carriedTokens state.carry line.toList).filter (!·.isTrivia))
      (state.context.steps (carriedPieces state.carry line.toList)) := by
  obtain ⟨carry, ctx⟩ := state
  cases carry with
  | none => exact .nil
  | some construct =>
    unfold carriedTokens carriedPieces continuation
    dsimp only
    by_cases hpart : carriedPart (some construct) line.toList = []
    · rw [hpart, Text.byteSize_nil, if_pos rfl, if_pos rfl]
      exact .nil
    · have hcovers : Token.Covers line.toList (carriedPart (some construct) line.toList)
          ⟨construct.kind, ⟨0, Text.byteSize (carriedPart (some construct) line.toList)⟩, ⟨1, 1⟩,
            .none⟩ := by
        refine ⟨[], rest (some construct) line.toList, ?_, ?_⟩
        · rw [List.nil_append, carriedPart_append_rest]
        · rw [Text.byteSize_nil, Nat.zero_add]
      have hsize := Nat.ne_of_gt (Text.byteSize_pos hpart)
      rw [if_neg hpart, if_neg hsize]
      cases construct with
      | textBlock =>
        rw [Context.steps_cons_of_significant rfl]
        exact .cons ⟨rfl, rfl, fun _ => hcovers.text_eq⟩ .nil
      | _ =>
        rw [Context.steps_cons_of_isTrivia rfl]
        exact .nil

theorem shows_steps (line : String) (state : LineState) :
    List.Forall₂ (Token.Shows line)
      ((tokenizeLine line state).tokens.filter (!·.isTrivia)) (steps state line.toList) := by
  have hrun : List.Forall₂ (Token.Shows line)
      ((run state line.toList).1.tokens.filter (!·.isTrivia))
      (Progress.steps .line (LineIndex.ofText line.toList) ⟨contextOfRest state line.toList, 0⟩
        (occurrences state.carry line.toList)) := by
    refine Progress.shows_run fun o ho => .inr ?_
    have hstands := Occurrence.standsIn_of_mem ho
    rw [carriedPart_append_rest] at hstands
    exact hstands
  rw [tokenizeLine_eq, List.filter_append]
  exact List.rel_append (shows_carried line state) hrun

end Line

/-! ## Scripts -/

theorem Shape.kind_of_closingAngles {shape : Shape} (h : shape.closingAngles ≠ 0)
    {kind : TokenKind} (hkind : kind ∈ shape.kinds) :
    kind = .genericClose ∨ kind = .operator := by
  cases shape with
  | symbol s =>
    have key : ∀ s ∈ Symbol.all, s.closingAngles ≠ 0 → ∀ kind ∈ s.kinds,
        kind = .genericClose ∨ kind = .operator := by decide
    exact key s s.mem_all h kind hkind
  | _ => exact absurd rfl h

namespace Context

variable {mode : Mode} {ctx : Context} {l : Lexeme} {ahead : List Lexeme} {s : Step}

def lexemeSteps (mode : Mode) (ctx : Context) (l : Lexeme) (ahead : List Lexeme) : List Step :=
  ctx.steps (Reading.ofLexeme mode ctx l ahead).pieces

/-- The steps of consecutive significant lexemes. -/
def script (mode : Mode) : Context → List Lexeme → List Step
  | _, [] => []
  | ctx, l :: ls => ctx.lexemeSteps mode l ls ++ script mode (ctx.read mode l ls) ls

theorem lexemeSteps_of_isTrivia (h : l.isTrivia = true) (mode : Mode) (ctx : Context)
    (ahead : List Lexeme) :
    ctx.lexemeSteps mode l ahead = [] ∧ ctx.read mode l ahead = ctx := by
  obtain ⟨kind, hkind⟩ := Shape.exists_kinds_of_isTrivia h
  obtain ⟨htrivia, hreading⟩ := Reading.ofLexeme_of_isTrivia h hkind mode ctx ahead
  unfold lexemeSteps read
  rw [hreading]
  exact ⟨steps_cons_of_isTrivia htrivia _ _, observe_of_isTrivia htrivia _ _ _⟩

theorem lexemeSteps_of_pieces {piece : Piece}
    (h : (Reading.ofLexeme mode ctx l ahead).pieces = [piece])
    (hkind : piece.kind.isTrivia = false) :
    ctx.lexemeSteps mode l ahead = [⟨ctx, piece⟩] ∧
      ctx.read mode l ahead = ctx.observePiece piece := by
  unfold lexemeSteps read
  rw [h]
  exact ⟨steps_cons_of_significant hkind _ _, rfl⟩

theorem kind_mem_of_mem_lexemeSteps (h : s ∈ ctx.lexemeSteps mode l ahead) :
    s.kind ∈ l.shape.kinds :=
  Reading.kind_mem_kinds (piece_mem_of_mem_steps h)

/-- All lexemes but the runs of closing angle brackets take one step at most. -/
theorem lexemeSteps_eq_singleton (hangles : l.shape.closingAngles = 0)
    (h : s ∈ ctx.lexemeSteps mode l ahead) :
    ctx.lexemeSteps mode l ahead = [s] ∧ s.before = ctx ∧ s.piece.text = l.text ∧
      ctx.read mode l ahead = s.after := by
  have hend : l.shape ≠ .endOfInput := by
    intro hend
    have hkind := kind_mem_of_mem_lexemeSteps h
    rw [hend] at hkind
    cases hkind
  obtain ⟨kind, -, flags, opensLambda, hpieces⟩ :=
    Reading.isOnePiece_ofLexeme hangles hend mode ctx ahead
  have hpiece := piece_mem_of_mem_steps h
  have htrivia := (mem_of_mem_steps h).2
  rw [hpieces, List.mem_singleton] at hpiece
  rw [Step.kind, hpiece] at htrivia
  obtain ⟨hsteps, hread⟩ := lexemeSteps_of_pieces hpieces htrivia
  rw [hsteps, List.mem_singleton] at h
  subst h
  exact ⟨hsteps, rfl, rfl, hread⟩

theorem lexemeSteps_place {before rest : List Step} (hangles : l.shape.closingAngles = 0)
    (h : ctx.lexemeSteps mode l ahead = before ++ s :: rest) :
    (before = [] ∧ rest = []) ∧ ctx.lexemeSteps mode l ahead = [s] ∧ s.before = ctx ∧
      s.piece.text = l.text ∧ ctx.read mode l ahead = s.after := by
  have hmem : s ∈ ctx.lexemeSteps mode l ahead :=
    h ▸ List.mem_append_right _ List.mem_cons_self
  have hsingle := lexemeSteps_eq_singleton hangles hmem
  refine ⟨?_, hsingle⟩
  rw [hsingle.1] at h
  simpa [List.singleton_eq_append_iff] using h

theorem exists_script_cons (hangles : l.shape.closingAngles = 0) (hend : l.shape ≠ .endOfInput)
    (hkinds : ∀ kind ∈ l.shape.kinds, kind.isTrivia = false) (mode : Mode) (ctx : Context)
    (ls : List Lexeme) :
    ∃ s, ctx.lexemeSteps mode l ls = [s] ∧ s.before = ctx ∧ s.kind ∈ l.shape.kinds ∧
      s.piece.text = l.text ∧ ctx.script mode (l :: ls) = s :: s.after.script mode ls := by
  obtain ⟨kind, hkind, flags, opensLambda, hpieces⟩ :=
    Reading.isOnePiece_ofLexeme hangles hend mode ctx ls
  obtain ⟨hsteps, hread⟩ := lexemeSteps_of_pieces hpieces (hkinds kind hkind)
  refine ⟨_, hsteps, rfl, hkind, rfl, ?_⟩
  rw [script, hsteps, hread]
  rfl

/-- What a place among the steps of lexemes is: a place among the steps of one lexeme, in front
of which any property holds that lexemes keep while the steps taken so far add up. -/
theorem script_split {Q : List Step → Context → List Lexeme → Prop}
    (kept : ∀ done ctx l ls, Q done ctx (l :: ls) →
      Q (done ++ ctx.lexemeSteps mode l ls) (ctx.read mode l ls) ls)
    (done : List Step) {ls : List Lexeme} (h : Q done ctx ls) {earlier later : List Step}
    (hsplit : ctx.script mode ls = earlier ++ s :: later) :
    ∃ front l behind c before rest, Q (done ++ front) c (l :: behind) ∧
      earlier = front ++ before ∧ c.lexemeSteps mode l behind = before ++ s :: rest ∧
      later = rest ++ (c.read mode l behind).script mode behind := by
  induction ls generalizing done ctx earlier with
  | nil => exact absurd hsplit.symm (List.append_ne_nil_of_right_ne_nil _ (List.cons_ne_nil _ _))
  | cons l ls ih =>
    rw [script, List.append_eq_append_iff] at hsplit
    rcases hsplit with ⟨front, rfl, hsplit⟩ | ⟨rest, hsteps, hlater⟩
    · obtain ⟨front', l', behind, c, before, rest, hQ, rfl, hsteps, hlater⟩ :=
        ih _ (kept _ _ _ _ h) hsplit
      rw [List.append_assoc] at hQ
      exact ⟨_, l', behind, c, before, rest, hQ, (List.append_assoc _ _ _).symm, hsteps, hlater⟩
    · cases rest with
      | nil =>
        rw [List.append_nil] at hsteps
        have hlater' : (ctx.read mode l ls).script mode ls = [] ++ s :: later := hlater.symm
        obtain ⟨front', l', behind, c, before, rest, hQ, hbefore, hsteps', hlater'⟩ :=
          ih _ (kept _ _ _ _ h) hlater'
        refine ⟨ctx.lexemeSteps mode l ls ++ front', l', behind, c, before, rest, ?_, ?_, hsteps',
          hlater'⟩
        · rw [← List.append_assoc]
          exact hQ
        · rw [List.append_assoc, ← hbefore, List.append_nil, hsteps]
      | cons s' rest =>
        obtain ⟨rfl, rfl⟩ := List.cons.inj hlater
        exact ⟨[], l, ls, ctx, earlier, rest, by rwa [List.append_nil], rfl, hsteps, rfl⟩

/-- A property of the steps so far and the context behind them that each step keeps holds at
each place among the steps of pieces. -/
theorem steps_history {R : List Step → Context → Prop}
    (kept : ∀ done s, s.kind.isTrivia = false → R done s.before → R (done ++ [s]) s.after)
    {done : List Step} (h : R done ctx) (pieces : List Piece) :
    R (done ++ ctx.steps pieces) (ctx.observePieces pieces) ∧
      ∀ earlier s later, ctx.steps pieces = earlier ++ s :: later →
        R (done ++ earlier) s.before := by
  induction pieces generalizing ctx done with
  | nil =>
    rw [steps_nil, List.append_nil]
    refine ⟨h, fun earlier s later hsplit => ?_⟩
    exact absurd hsplit.symm (List.append_ne_nil_of_right_ne_nil _ (List.cons_ne_nil _ _))
  | cons piece pieces ih =>
    rw [observePieces_cons]
    cases htrivia : piece.kind.isTrivia with
    | true =>
      have hctx : ctx.observePiece piece = ctx := observe_of_isTrivia htrivia ctx _ _
      rw [steps_cons_of_isTrivia htrivia, hctx]
      exact ih h
    | false =>
      obtain ⟨hlast, hall⟩ := ih (kept done ⟨ctx, piece⟩ htrivia h)
      rw [steps_cons_of_significant htrivia]
      rw [List.append_assoc] at hlast
      refine ⟨hlast, fun earlier s later hsplit => ?_⟩
      cases earlier with
      | nil =>
        obtain ⟨rfl, -⟩ := List.cons.inj hsplit
        rwa [List.append_nil]
      | cons s' earlier =>
        obtain ⟨rfl, hsplit'⟩ := List.cons.inj hsplit
        have hplace := hall earlier s later hsplit'
        rwa [List.append_assoc] at hplace

theorem script_history {R : List Step → Context → Prop}
    (kept : ∀ done s, s.kind.isTrivia = false → R done s.before → R (done ++ [s]) s.after)
    (h : R [] ctx) {ls : List Lexeme} {earlier later : List Step}
    (hsplit : ctx.script mode ls = earlier ++ s :: later) : R earlier s.before := by
  obtain ⟨front, l, behind, c, before, rest, hR, rfl, hsteps, -⟩ :=
    script_split (Q := fun done c _ => R done c)
      (fun _ _ _ _ hR => (steps_history kept hR _).1) [] h hsplit
  exact (steps_history kept hR _).2 before s rest hsteps

end Context

namespace Progress

/-- **The steps of a run** are the script of its significant lexemes. -/
theorem steps_ofLexemes (mode : Mode) (index : LineIndex) (progress : Progress) (start : Nat)
    (ls : List Lexeme) :
    progress.steps mode index (Occurrence.ofLexemes start ls) =
      progress.context.script mode (ls.filter (·.isSignificant)) := by
  induction ls generalizing start progress with
  | nil => rfl
  | cons l ls ih =>
    have hsteps : progress.steps mode index (Occurrence.ofLexemes start (l :: ls)) =
        progress.context.lexemeSteps mode l (ls.filter (·.isSignificant)) ++
          (progress.context.read mode l (ls.filter (·.isSignificant))).script mode
            (ls.filter (·.isSignificant)) := by
      have hnext := ih (progress.emit mode index
        ⟨l, start, Occurrence.significant (Occurrence.ofLexemes (start + l.length) ls)⟩).2
        (start + l.length)
      rw [context_emit, Occurrence.significant_ofLexemes] at hnext
      rw [← hnext, ← Occurrence.significant_ofLexemes (start + l.length) ls]
      rfl
    rw [hsteps, Lexeme.filter_isSignificant_cons]
    split
    · next htrivia =>
      obtain ⟨hnone, hctx⟩ := Context.lexemeSteps_of_isTrivia htrivia mode progress.context
        (ls.filter (·.isSignificant))
      rw [hnone, hctx, List.nil_append]
    · rfl

/-- A place among the steps of a run is one among the steps of a lexeme, in front of which holds
what each lexeme keeps. -/
theorem steps_split {mode : Mode} {P : Context → List Lexeme → Prop}
    (kept : KeptByReading mode P) {progress : Progress} {ls : List Lexeme}
    (h : P progress.context (ls.filter (·.isSignificant))) {index : LineIndex} {start : Nat}
    {earlier later : List Step} {s : Step}
    (hsplit : progress.steps mode index (Occurrence.ofLexemes start ls) =
      earlier ++ s :: later) :
    ∃ (l : Lexeme) (behind : List Lexeme) (c : Context) (before rest : List Step),
      P c (l :: behind) ∧ (∀ l ∈ behind, l.isTrivia = false) ∧
      c.lexemeSteps mode l behind = before ++ s :: rest ∧
      later = rest ++ (c.read mode l behind).script mode behind := by
  have hsignificant : ∀ l ∈ ls.filter (·.isSignificant), l.isTrivia = false := by
    intro l hl
    simpa [Lexeme.isSignificant, Lexeme.isTrivia] using (List.mem_filter.mp hl).2
  rw [steps_ofLexemes] at hsplit
  obtain ⟨-, l, behind, c, before, rest, ⟨hP, hbehind⟩, -, hsteps, hlater⟩ :=
    Context.script_split (Q := fun _ c ls => P c ls ∧ ∀ l ∈ ls, l.isTrivia = false)
      (by
        rintro - c l ls ⟨hP, hls⟩
        rw [List.forall_mem_cons] at hls
        exact ⟨kept c l ls (by rwa [if_neg (by simp [hls.1])]), hls.2⟩)
      [] ⟨h, hsignificant⟩ hsplit
  rw [List.forall_mem_cons] at hbehind
  exact ⟨l, behind, c, before, rest, hP, hbehind.2, hsteps, hlater⟩

theorem steps_history {mode : Mode} {R : List Step → Context → Prop}
    (kept : ∀ done s, s.kind.isTrivia = false → R done s.before → R (done ++ [s]) s.after)
    {progress : Progress} (h : R [] progress.context) {index : LineIndex} {start : Nat}
    {ls : List Lexeme} {earlier later : List Step} {s : Step}
    (hsplit : progress.steps mode index (Occurrence.ofLexemes start ls) =
      earlier ++ s :: later) : R earlier s.before := by
  rw [steps_ofLexemes] at hsplit
  exact Context.script_history kept h hsplit

/-- A step with the significant lexemes behind it: the step is all that its lexeme takes. -/
structure Place (mode : Mode) (s : Step) (later : List Step) (l : Lexeme)
    (behind : List Lexeme) : Prop where
  significant : ∀ l ∈ behind, l.isTrivia = false
  steps : s.before.lexemeSteps mode l behind = [s]
  read : s.before.read mode l behind = s.after
  text : s.piece.text = l.text
  later : later = s.after.script mode behind

namespace Place

variable {mode : Mode} {s : Step} {later : List Step} {l : Lexeme} {behind : List Lexeme}

theorem mem (h : Place mode s later l behind) : s ∈ s.before.lexemeSteps mode l behind := by
  rw [h.steps]
  exact List.mem_singleton_self s

theorem kind_mem (h : Place mode s later l behind) : s.kind ∈ l.shape.kinds :=
  Context.kind_mem_of_mem_lexemeSteps h.mem

theorem word (h : Place mode s later l behind) : s.text = l.word :=
  congrArg String.ofList h.text

end Place

/-- A step whose lexeme is no run of closing angle brackets is all that its lexeme takes. -/
theorem steps_place_of {mode : Mode} {P : Context → List Lexeme → Prop}
    (kept : KeptByReading mode P) {progress : Progress} {ls : List Lexeme}
    (h : P progress.context (ls.filter (·.isSignificant))) {index : LineIndex} {start : Nat}
    {earlier later : List Step} {s : Step}
    (hsplit : progress.steps mode index (Occurrence.ofLexemes start ls) =
      earlier ++ s :: later)
    (hangles : ∀ c l behind, P c (l :: behind) → s ∈ c.lexemeSteps mode l behind →
      l.shape.closingAngles = 0) :
    ∃ l behind, P s.before (l :: behind) ∧ Place mode s later l behind := by
  obtain ⟨l, behind, c, before, rest, hP, hbehind, hsteps, rfl⟩ := steps_split kept h hsplit
  have hmem : s ∈ c.lexemeSteps mode l behind :=
    hsteps ▸ List.mem_append_right _ List.mem_cons_self
  obtain ⟨⟨-, rfl⟩, hone, rfl, htext, hread⟩ :=
    Context.lexemeSteps_place (hangles c l behind hP hmem) hsteps
  exact ⟨l, behind, hP, hbehind, hone, hread, htext, by rw [List.nil_append, hread]⟩

/-- A step that is no closing angle bracket and no operator is all that its lexeme takes. -/
theorem steps_place {mode : Mode} {P : Context → List Lexeme → Prop}
    (kept : KeptByReading mode P) {progress : Progress} {ls : List Lexeme}
    (h : P progress.context (ls.filter (·.isSignificant))) {index : LineIndex} {start : Nat}
    {earlier later : List Step} {s : Step}
    (hsplit : progress.steps mode index (Occurrence.ofLexemes start ls) =
      earlier ++ s :: later)
    (hkind : s.kind ≠ .genericClose ∧ s.kind ≠ .operator) :
    ∃ l behind, P s.before (l :: behind) ∧ Place mode s later l behind := by
  refine steps_place_of kept h hsplit fun c l behind _ hmem => ?_
  by_contra hangles
  rcases Shape.kind_of_closingAngles hangles (Context.kind_mem_of_mem_lexemeSteps hmem) with
    h | h
  · exact hkind.1 h
  · exact hkind.2 h

end Progress

end JavaHighlight
