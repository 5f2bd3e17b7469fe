import JavaHighlight.Proofs.Kinds
import JavaHighlight.TokenStream

/-!
# Visits

A run reads lexemes from left to right. `Progress.visits` lists each lexeme together with the
progress in front of it, so that what a run does can be said lexeme by lexeme: its tokens and
diagnostics are those of its visits, one behind the other (`tokens_run`, `diagnostics_run`).
`Visit.observations` goes one step further down, to the pieces and the contexts they are
observed in.
-/

namespace JavaHighlight

/-! ## Observing pieces -/

namespace Context

/-- The context behind a piece. -/
def observePiece (ctx : Context) (piece : Piece) : Context :=
  ctx.observe piece.kind (String.ofList piece.text) piece.opensLambda

def observePieces (ctx : Context) (pieces : List Piece) : Context :=
  pieces.foldl observePiece ctx

@[simp] theorem observePieces_nil (ctx : Context) : ctx.observePieces [] = ctx := rfl

@[simp] theorem observePieces_cons (ctx : Context) (piece : Piece) (pieces : List Piece) :
    ctx.observePieces (piece :: pieces) = (ctx.observePiece piece).observePieces pieces := rfl

/-- Consecutive pieces, each with the context in which it is observed. -/
def observations : Context → List Piece → List (Context × Piece)
  | _, [] => []
  | ctx, piece :: pieces => (ctx, piece) :: observations (ctx.observePiece piece) pieces

@[simp] theorem map_snd_observations (ctx : Context) (pieces : List Piece) :
    (ctx.observations pieces).map Prod.snd = pieces := by
  induction pieces generalizing ctx with
  | nil => rfl
  | cons piece pieces ih => rw [observations, List.map_cons, ih]

/-- The context behind a lexeme of a text that is read in the given mode. -/
def read (mode : Mode) (ctx : Context) (l : Lexeme) (ahead : List Lexeme) : Context :=
  ctx.observePieces (Reading.ofLexeme mode ctx l ahead).pieces

end Context

namespace Progress

/-! ## What pieces emit -/

theorem kind_emitPiece (index : LineIndex) (start : Nat) (piece : Piece) (progress : Progress) :
    (progress.emitPiece index start piece).1.tokens.map Token.kind = [piece.kind] := rfl

theorem context_emitPiece (index : LineIndex) (start : Nat) (piece : Piece)
    (progress : Progress) :
    (progress.emitPiece index start piece).2.context = progress.context.observePiece piece := rfl

@[simp] theorem map_kind_emitPieces (index : LineIndex) (start : Nat) (pieces : List Piece)
    (progress : Progress) :
    (progress.emitPieces index start pieces).1.tokens.map Token.kind =
      pieces.map Piece.kind := by
  induction pieces generalizing start progress with
  | nil => rfl
  | cons piece pieces ih =>
    rw [emitPieces, Emission.tokens_append, List.map_append, ih, kind_emitPiece]
    rfl

@[simp] theorem context_emitPieces (index : LineIndex) (start : Nat) (pieces : List Piece)
    (progress : Progress) :
    (progress.emitPieces index start pieces).2.context =
      progress.context.observePieces pieces := by
  induction pieces generalizing start progress with
  | nil => rfl
  | cons piece pieces ih => rw [emitPieces, ih, context_emitPiece, Context.observePieces_cons]

/-- What is wrong with a piece, if anything, is how it fails to close what is innermost. -/
theorem diagnostics_emitPieces {index : LineIndex} {start : Nat} {pieces : List Piece}
    {progress : Progress} {d : Diagnostic}
    (h : d ∈ (progress.emitPieces index start pieces).1.diagnostics) :
    ∃ x ∈ progress.context.observations pieces, ∃ issue,
      x.1.issue? x.2.kind = some issue ∧ d.problem = .unbalanced issue := by
  induction pieces generalizing start progress with
  | nil => simp [emitPieces] at h
  | cons piece pieces ih =>
    rw [emitPieces, Emission.diagnostics_append, List.mem_append] at h
    rcases h with h | h
    · obtain ⟨issue, hissue, rfl⟩ := List.mem_map.mp h
      exact ⟨(progress.context, piece), List.mem_cons_self, issue,
        Option.mem_toList.mp hissue, rfl⟩
    · obtain ⟨x, hx, hd⟩ := ih h
      exact ⟨x, List.mem_cons_of_mem _ hx, hd⟩

/-! ## What lexemes emit -/

@[simp] theorem map_kind_emit (mode : Mode) (index : LineIndex) (progress : Progress)
    (o : Occurrence) :
    (progress.emit mode index o).1.tokens.map Token.kind =
      (Reading.ofLexeme mode progress.context o.lexeme o.ahead).pieces.map Piece.kind := by
  simp only [emit, Emission.tokens_append, List.nil_append, map_kind_emitPieces]

@[simp] theorem context_emit (mode : Mode) (index : LineIndex) (progress : Progress)
    (o : Occurrence) :
    (progress.emit mode index o).2.context = progress.context.read mode o.lexeme o.ahead := by
  simp only [emit, context_emitPieces, Context.read]

end Progress

/-! ## Visits -/

/-- A lexeme of a run together with the progress made in front of it. -/
structure Visit where
  progress : Progress
  occurrence : Occurrence
  deriving DecidableEq, Repr

namespace Visit

def context (v : Visit) : Context :=
  v.progress.context

def lexeme (v : Visit) : Lexeme :=
  v.occurrence.lexeme

def reading (mode : Mode) (v : Visit) : Reading :=
  Reading.ofLexeme mode v.context v.lexeme v.occurrence.ahead

def emission (mode : Mode) (index : LineIndex) (v : Visit) : Emission :=
  (v.progress.emit mode index v.occurrence).1

/-- The pieces of the lexeme with the contexts they are observed in. -/
def observations (mode : Mode) (v : Visit) : List (Context × Piece) :=
  v.context.observations (v.reading mode).pieces

end Visit

namespace Progress

/-- The lexemes of a run, each with the progress in front of it. -/
def visits (mode : Mode) (index : LineIndex) : Progress → List Occurrence → List Visit
  | _, [] => []
  | progress, o :: os => ⟨progress, o⟩ :: visits mode index (progress.emit mode index o).2 os

@[simp] theorem map_occurrence_visits (mode : Mode) (index : LineIndex) (progress : Progress)
    (os : List Occurrence) : (progress.visits mode index os).map Visit.occurrence = os := by
  induction os generalizing progress with
  | nil => rfl
  | cons o os ih => rw [visits, List.map_cons, ih]

theorem tokens_run (mode : Mode) (index : LineIndex) (progress : Progress)
    (os : List Occurrence) :
    (progress.run mode index os).1.tokens =
      (progress.visits mode index os).flatMap fun v => (v.emission mode index).tokens := by
  induction os generalizing progress with
  | nil => rfl
  | cons o os ih => rw [run, Emission.tokens_append, ih, visits, List.flatMap_cons]; rfl

theorem diagnostics_run (mode : Mode) (index : LineIndex) (progress : Progress)
    (os : List Occurrence) :
    (progress.run mode index os).1.diagnostics =
      (progress.visits mode index os).flatMap fun v => (v.emission mode index).diagnostics := by
  induction os generalizing progress with
  | nil => rfl
  | cons o os ih => rw [run, Emission.diagnostics_append, ih, visits, List.flatMap_cons]; rfl

/-- A diagnostic of a lexeme is the problem of its reading, or a piece of it fails to close
what is innermost. -/
theorem diagnostics_emission {mode : Mode} {index : LineIndex} {v : Visit} {d : Diagnostic}
    (h : d ∈ (v.emission mode index).diagnostics) :
    (v.reading mode).problem = some d.problem ∨
      ∃ x ∈ v.observations mode, ∃ issue,
        x.1.issue? x.2.kind = some issue ∧ d.problem = .unbalanced issue := by
  simp only [Visit.emission, emit, Emission.diagnostics_append, List.mem_append] at h
  rcases h with h | h
  · obtain ⟨problem, hproblem, rfl⟩ := List.mem_map.mp h
    exact .inl (Option.mem_toList.mp hproblem)
  · exact .inr (diagnostics_emitPieces h)

end Progress

/-! ## Visits of a stream -/

namespace TokenStream

/-- The lexemes that are still to be read, each with the progress in front of it. -/
def visits (s : TokenStream) : List Visit :=
  s.progress.visits .whole s.index s.upcoming

def lastContext (s : TokenStream) : Context :=
  (s.progress.run .whole s.index s.upcoming).2.context

/-- A stream that nobody stops hands out what a run through its lexemes emits. -/
theorem drain_openAt (source : String) (offset : Nat) (stoppable : Bool) :
    let s := openAt source offset stoppable
    let emission := (s.progress.run .whole s.index s.upcoming).1
    s.drain false =
      ⟨emission.tokens,
        emission.diagnostics ++ s.lastContext.unclosed?.toList.map fun issue =>
          ⟨.point s.index.size, .unbalanced issue⟩, false⟩ := rfl

end TokenStream

/-! ## Invariants of runs -/

theorem Lexeme.filter_isSignificant_cons (l : Lexeme) (ls : List Lexeme) :
    (l :: ls).filter (·.isSignificant) =
      if l.isTrivia then ls.filter (·.isSignificant) else l :: ls.filter (·.isSignificant) := by
  rw [List.filter_cons, Lexeme.isSignificant, Lexeme.isTrivia]
  cases l.shape.isTrivia <;> rfl

/-- A property of the context and of the significant lexemes ahead that each lexeme keeps. -/
def KeptByReading (mode : Mode) (P : Context → List Lexeme → Prop) : Prop :=
  ∀ ctx (l : Lexeme) ahead,
    P ctx (if l.isTrivia then ahead else l :: ahead) → P (ctx.read mode l ahead) ahead

namespace Progress

variable {mode : Mode} {P : Context → List Lexeme → Prop} {ls : List Lexeme}

/-- What each lexeme keeps holds behind a run. -/
theorem context_run_of_kept (kept : KeptByReading mode P) (progress : Progress)
    (h : P progress.context (ls.filter (·.isSignificant))) (index : LineIndex) (start : Nat) :
    P (progress.run mode index (Occurrence.ofLexemes start ls)).2.context [] := by
  induction ls generalizing start progress with
  | nil => exact h
  | cons l ls ih =>
    rw [Occurrence.ofLexemes, run]
    refine ih _ ?_ _
    rw [context_emit, Occurrence.significant_ofLexemes]
    rw [Lexeme.filter_isSignificant_cons] at h
    exact kept _ _ _ h

theorem visits_of_kept (kept : KeptByReading mode P) (progress : Progress)
    (h : P progress.context (ls.filter (·.isSignificant))) (index : LineIndex) (start : Nat) :
    ∀ v ∈ progress.visits mode index (Occurrence.ofLexemes start ls),
      P v.context (if v.lexeme.isTrivia then v.occurrence.ahead
        else v.lexeme :: v.occurrence.ahead) := by
  induction ls generalizing start progress with
  | nil => simp [Occurrence.ofLexemes, visits]
  | cons l ls ih =>
    rw [Lexeme.filter_isSignificant_cons] at h
    intro v hv
    rw [Occurrence.ofLexemes, visits, List.mem_cons] at hv
    rcases hv with rfl | hv
    · simp only [Occurrence.significant_ofLexemes]
      exact h
    · refine ih _ ?_ _ v hv
      rw [context_emit, Occurrence.significant_ofLexemes]
      exact kept _ _ _ h

end Progress

end JavaHighlight
