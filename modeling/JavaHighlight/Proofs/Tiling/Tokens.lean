import JavaHighlight.Proofs.Lines.Carry
import JavaHighlight.Proofs.Lines.InStep
import JavaHighlight.Proofs.Lines.Spans
import JavaHighlight.Proofs.Tiling.Scan
import JavaHighlight.Proofs.Visit
import Mathlib.Data.List.Forall2

/-!
# Where tokens lie

The tokens of a run follow one another without a gap, and none is empty (`Progress.tile_run`).
Where the run starts between two characters, each token also covers a text of its own, and
these texts make up what is read (`Progress.emits_run`). Both are said of pieces first, then of
lexemes, then of runs.
-/

namespace JavaHighlight

/-! ## Consecutive spans -/

namespace Span

/-- Consecutive spans, none of them empty, that together lead from `start` to `stop`. -/
def Tile : (start stop : Nat) → List Span → Prop
  | start, stop, [] => start = stop
  | start, stop, span :: spans =>
    span.start = start ∧ start < span.stop ∧ Tile span.stop stop spans

theorem Tile.append {a b c : Nat} {left right : List Span} (hleft : Tile a b left)
    (hright : Tile b c right) : Tile a c (left ++ right) := by
  induction left generalizing a with
  | nil =>
    obtain rfl : a = b := hleft
    exact hright
  | cons span left ih => exact ⟨hleft.1, hleft.2.1, ih hleft.2.2⟩

theorem Tile.of_mem {start stop : Nat} {spans : List Span} (h : Tile start stop spans) :
    start ≤ stop ∧
      ∀ span ∈ spans, start ≤ span.start ∧ span.start < span.stop ∧ span.stop ≤ stop := by
  induction spans generalizing start with
  | nil =>
    obtain rfl : start = stop := h
    exact ⟨Nat.le_refl start, fun span hspan => absurd hspan List.not_mem_nil⟩
  | cons span spans ih =>
    obtain ⟨hstart, hlt, hrest⟩ := h
    obtain ⟨hle, hspans⟩ := ih hrest
    refine ⟨by omega, fun other hother => ?_⟩
    rcases List.mem_cons.mp hother with rfl | hother
    · omega
    · have := hspans other hother
      omega

theorem Tile.pairwise {start stop : Nat} {spans : List Span} (h : Tile start stop spans) :
    spans.Pairwise fun a b => a.stop ≤ b.start ∧ a.start < b.start := by
  induction spans generalizing start with
  | nil => exact .nil
  | cons span spans ih =>
    obtain ⟨hstart, hlt, hrest⟩ := h
    refine .cons (fun other hother => ?_) (ih hrest)
    have := (hrest.of_mem.2 other hother).1
    omega

end Span

theorem Token.getLast?_of_tile {start stop : Nat} {tokens : List Token}
    (h : Span.Tile start stop (tokens.map span)) {token : Token} (htoken : token ∈ tokens)
    (hstop : token.span.stop = stop) : tokens.getLast? = some token := by
  induction tokens generalizing start with
  | nil => cases htoken
  | cons first tokens ih =>
    obtain ⟨-, -, hrest⟩ := h
    rcases List.mem_cons.mp htoken with rfl | htoken
    · have hnil : tokens = [] := by
        by_contra hne
        obtain ⟨next, others, rfl⟩ := List.exists_cons_of_ne_nil hne
        have := hrest.of_mem.2 next.span List.mem_cons_self
        omega
      rw [hnil, List.getLast?_singleton]
    · rw [List.getLast?_cons, ih hrest htoken, Option.getD_some]

namespace Progress

variable {index : LineIndex} {start : Nat} {progress : Progress}

theorem tile_emitPieces {pieces : List Piece} (hpos : ∀ piece ∈ pieces, 0 < piece.length) :
    Span.Tile start (start + Piece.totalLength pieces)
      ((progress.emitPieces index start pieces).1.tokens.map Token.span) := by
  induction pieces generalizing start progress with
  | nil => rfl
  | cons piece pieces ih =>
    rw [List.forall_mem_cons] at hpos
    refine ⟨rfl, Nat.lt_add_of_pos_right hpos.1, ?_⟩
    rw [Piece.totalLength_cons, ← Nat.add_assoc]
    exact ih hpos.2

theorem tile_emit {o : Occurrence} (hl : o.lexeme.InText) (hpos : 0 < o.lexeme.length)
    (mode : Mode) (index : LineIndex) (progress : Progress) :
    Span.Tile o.start o.stop ((progress.emit mode index o).1.tokens.map Token.span) := by
  obtain ⟨hpieces, hsum⟩ := Reading.length_pieces hl hpos mode progress.context o.ahead
  rw [Occurrence.stop, ← hsum]
  exact tile_emitPieces hpieces

/-- The tokens of a run tile what its lexemes take up. -/
theorem tile_run {ls : List Lexeme} (hls : ∀ l ∈ ls, l.InText ∧ 0 < l.length) (mode : Mode)
    (index : LineIndex) (progress : Progress) (start : Nat) :
    Span.Tile start (start + Lexeme.totalLength ls)
      ((progress.run mode index (Occurrence.ofLexemes start ls)).1.tokens.map Token.span) := by
  induction ls generalizing start progress with
  | nil => rfl
  | cons l ls ih =>
    rw [List.forall_mem_cons] at hls
    rw [Occurrence.ofLexemes, run_cons, Emission.tokens_append, List.map_append,
      Lexeme.totalLength_cons, ← Nat.add_assoc]
    refine Span.Tile.append (b := start + l.length) ?_ (ih hls.2 _ _)
    exact tile_emit (o := ⟨l, start, _⟩) hls.1.1 hls.1.2 mode index progress

end Progress

/-! ## The texts of pieces -/

namespace Reading

variable {cs : List Char} {l : Lexeme}

theorem spelling_of_closingAngles {s : Symbol} (h : s.closingAngles ≠ 0) :
    s.spelling.toList = List.replicate s.closingAngles '>' := by
  have key : ∀ s ∈ Symbol.all, s.closingAngles ≠ 0 →
      s.spelling.toList = List.replicate s.closingAngles '>' := by decide
  exact key s s.mem_all h

theorem byteSize_replicate_angle (n : Nat) : Text.byteSize (List.replicate n '>') = n := by
  induction n with
  | zero => rfl
  | succ n ih =>
    rw [List.replicate_succ, Text.byteSize_cons, ih]
    exact Nat.add_comm 1 n

/-- The pieces of a lexeme spell it, and each is as long as its text. -/
theorem text_pieces (h : l ∈ Lexeme.ofText cs) (mode : Mode) (ctx : Context)
    (ahead : List Lexeme) :
    (ofLexeme mode ctx l ahead).pieces.flatMap Piece.text = l.text ∧
      ∀ piece ∈ (ofLexeme mode ctx l ahead).pieces,
        piece.length = Text.byteSize piece.text := by
  have hwhole : l.length = Text.byteSize l.text := Lexeme.length_eq_byteSize h
  by_cases hangles : l.shape.closingAngles = 0
  · obtain ⟨kind, -, flags, opensLambda, hpieces⟩ :=
      isOnePiece_ofLexeme hangles (Lexeme.shape_ne_endOfInput_of_mem_ofText h) mode ctx ahead
    rw [hpieces]
    exact ⟨List.append_nil _, List.forall_mem_singleton.mpr hwhole⟩
  · rw [ofLexeme_of_closingAngles hangles]
    have htext : l.text = List.replicate l.shape.closingAngles '>' := by
      cases hl : l.shape with
      | symbol s =>
        rw [hl] at hangles
        rw [Lexeme.text_of_symbol h hl, spelling_of_closingAngles hangles]
        rfl
      | _ => rw [hl] at hangles; exact absurd rfl hangles
    rcases pieces_ofClosingAngles ctx l with hpieces | ⟨closing, -, hle, hpieces⟩
    · rw [hpieces]
      exact ⟨List.append_nil _, List.forall_mem_singleton.mpr hwhole⟩
    · have hclosers : ∀ split, (List.replicate closing (Piece.closingAngle split)).flatMap
          Piece.text = List.replicate closing '>' := by
        intro split
        rw [List.flatMap_replicate]
        show (List.replicate closing (List.replicate 1 '>')).flatten = _
        rw [List.flatten_replicate_replicate, Nat.mul_one]
      rw [hpieces, List.flatMap_append, hclosers, htext]
      refine ⟨?_, fun piece hpiece => ?_⟩
      · split
        · show _ ++ (List.replicate _ '>' ++ []) = _
          rw [List.append_nil, List.replicate_append_replicate, Nat.add_sub_cancel' hle]
        · rw [List.flatMap_nil, List.append_nil]
          congr 1
          omega
      · rcases List.mem_append.mp hpiece with hpiece | hpiece
        · rw [List.eq_of_mem_replicate hpiece]
          rfl
        · split at hpiece
          · rw [List.mem_singleton.mp hpiece]
            exact (byteSize_replicate_angle _).symm
          · cases hpiece

end Reading

/-! ## The texts of tokens -/

/-- A token stands where a text has the given part. -/
def Token.Covers (cs part : List Char) (token : Token) : Prop :=
  ∃ before after, cs = before ++ (part ++ after) ∧
    token.span = ⟨Text.byteSize before, Text.byteSize before + Text.byteSize part⟩

namespace Token.Covers

variable {source : String} {part : List Char} {token : Token}

theorem exists_strings (h : token.Covers source.toList part) :
    ∃ before after : String, source = before ++ (String.ofList part ++ after) ∧
      token.span = ⟨before.utf8ByteSize,
        before.utf8ByteSize + (String.ofList part).utf8ByteSize⟩ := by
  obtain ⟨before, after, hcs, hspan⟩ := h
  refine ⟨String.ofList before, String.ofList after, ?_, ?_⟩
  · rw [← String.ofList_append, ← String.ofList_append, ← hcs, String.ofList_toList]
  · rw [hspan, Text.byteSize_eq_utf8ByteSize, Text.byteSize_eq_utf8ByteSize]

theorem text_eq (h : token.Covers source.toList part) :
    token.text source = String.ofList part := by
  obtain ⟨before, after, hsource, hspan⟩ := h.exists_strings
  rw [Token.text, Span.text, hspan, hsource, Text.slice?_append]
  rfl

theorem isValid (h : token.Covers source.toList part) :
    String.Pos.Raw.IsValid source ⟨token.span.start⟩ ∧
      String.Pos.Raw.IsValid source ⟨token.span.stop⟩ := by
  obtain ⟨before, after, hsource, hspan⟩ := h.exists_strings
  rw [hspan, ← String.utf8ByteSize_append]
  constructor
  · exact String.Pos.Raw.isValid_iff_exists_append.mpr ⟨_, _, hsource, rfl⟩
  · rw [← String.append_assoc] at hsource
    exact String.Pos.Raw.isValid_iff_exists_append.mpr ⟨_, _, hsource, rfl⟩

end Token.Covers

/-- A token of a piece has the kind of the piece and covers its text. -/
def Piece.Emits (cs : List Char) (piece : Piece) (token : Token) : Prop :=
  token.kind = piece.kind ∧ token.Covers cs piece.text

/-- A lexeme at its place in a text. -/
structure Occurrence.StandsIn (cs : List Char) (o : Occurrence) : Prop where
  spelled : ∃ ds, o.lexeme ∈ Lexeme.ofText ds
  place : ∃ before after, cs = before ++ (o.lexeme.text ++ after) ∧
    o.start = Text.byteSize before

theorem Occurrence.standsIn_of_mem {front rest : List Char} {o : Occurrence}
    (h : o ∈ ofLexemes (Text.byteSize front) (Lexeme.ofText rest)) :
    o.StandsIn (front ++ rest) := by
  obtain ⟨before, after, hls, hstart, -⟩ := mem_ofLexemes_iff.mp h
  have hmem : ∀ l ∈ before, l.length = Text.byteSize l.text := fun l hl =>
    Lexeme.length_eq_byteSize (hls ▸ List.mem_append_left _ hl)
  have hrest := Lexeme.flatMap_text_ofText rest
  rw [hls, List.flatMap_append, List.flatMap_cons] at hrest
  refine ⟨⟨rest, hls ▸ List.mem_append_right _ List.mem_cons_self⟩,
    front ++ before.flatMap Lexeme.text, after.flatMap Lexeme.text, ?_, ?_⟩
  · rw [List.append_assoc, hrest]
  · rw [hstart, Text.byteSize_append, Lexeme.totalLength_eq_byteSize hmem]

namespace Progress

variable {index : LineIndex} {progress : Progress}

theorem emits_emitPieces {before after : List Char} {pieces : List Piece}
    (hpieces : ∀ piece ∈ pieces, piece.length = Text.byteSize piece.text) :
    List.Forall₂ (Piece.Emits (before ++ (pieces.flatMap Piece.text ++ after))) pieces
      (progress.emitPieces index (Text.byteSize before) pieces).1.tokens := by
  induction pieces generalizing before progress with
  | nil => exact .nil
  | cons piece pieces ih =>
    rw [List.forall_mem_cons] at hpieces
    rw [emitPieces_cons, List.flatMap_cons, List.append_assoc]
    refine .cons ⟨rfl, before, pieces.flatMap Piece.text ++ after, rfl, ?_⟩ ?_
    · rw [← hpieces.1]
    · rw [← List.append_assoc before, hpieces.1, ← Text.byteSize_append]
      exact ih hpieces.2

theorem emits_emit {cs : List Char} {o : Occurrence} (h : o.StandsIn cs) (mode : Mode)
    (index : LineIndex) (progress : Progress) :
    List.Forall₂ (Piece.Emits cs)
      (Reading.ofLexeme mode progress.context o.lexeme o.ahead).pieces
      (progress.emit mode index o).1.tokens := by
  obtain ⟨⟨ds, hds⟩, before, after, rfl, hstart⟩ := h
  obtain ⟨htext, hlength⟩ := Reading.text_pieces hds mode progress.context o.ahead
  rw [← htext]
  show List.Forall₂ _ _ (progress.emitPieces index o.start _).1.tokens
  rw [hstart]
  exact emits_emitPieces hlength

end Progress

theorem exists_of_mem_forall₂ {α β : Type} {R : α → β → Prop} {xs : List α} {ys : List β}
    (h : List.Forall₂ R xs ys) {y : β} (hy : y ∈ ys) : ∃ x ∈ xs, R x y := by
  induction h with
  | nil => cases hy
  | @cons x z xs ys hxz _ ih =>
    rcases List.mem_cons.mp hy with rfl | hy
    · exact ⟨x, List.mem_cons_self, hxz⟩
    · obtain ⟨x', hx', hR⟩ := ih hy
      exact ⟨x', List.mem_cons_of_mem x hx', hR⟩

theorem forall₂_flatMap {α β γ : Type} {R : β → γ → Prop} {f : α → List β} {g : α → List γ}
    {xs : List α} (h : ∀ x ∈ xs, List.Forall₂ R (f x) (g x)) :
    List.Forall₂ R (xs.flatMap f) (xs.flatMap g) := by
  refine List.rel_flatMap (R := fun x y => x = y ∧ x ∈ xs) ?_ ?_
  · exact List.forall₂_same.mpr fun x hx => ⟨rfl, hx⟩
  · rintro x y ⟨rfl, hx⟩
    exact h x hx

namespace Progress

theorem mem_of_mem_visits {mode : Mode} {index : LineIndex} {progress : Progress}
    {os : List Occurrence} {v : Visit} (h : v ∈ progress.visits mode index os) :
    v.occurrence ∈ os := by
  rw [← map_occurrence_visits mode index progress os]
  exact List.mem_map_of_mem h

/-- The pieces of a run spell its text, and its tokens cover the texts of the pieces. -/
theorem emits_run (mode : Mode) (index : LineIndex) (progress : Progress)
    (front rest : List Char) {os : List Occurrence}
    (hos : os = Occurrence.ofLexemes (Text.byteSize front) (Lexeme.ofText rest)) :
    ∃ pieces : List Piece, pieces.flatMap Piece.text = rest ∧
      List.Forall₂ (Piece.Emits (front ++ rest)) pieces
        (progress.run mode index os).1.tokens := by
  have hstands : ∀ v ∈ progress.visits mode index os, v.occurrence.StandsIn (front ++ rest) :=
    fun v hv => Occurrence.standsIn_of_mem (hos ▸ mem_of_mem_visits hv)
  refine ⟨(progress.visits mode index os).flatMap fun v => (v.reading mode).pieces, ?_, ?_⟩
  · have htexts : ∀ v ∈ progress.visits mode index os,
        (v.reading mode).pieces.flatMap Piece.text = v.occurrence.lexeme.text := by
      intro v hv
      obtain ⟨ds, hds⟩ := (hstands v hv).spelled
      exact (Reading.text_pieces hds mode v.context _).1
    calc ((progress.visits mode index os).flatMap _).flatMap Piece.text
        = (progress.visits mode index os).flatMap fun v => v.occurrence.lexeme.text := by
          rw [List.flatMap_assoc, List.flatMap_congr htexts]
      _ = (((progress.visits mode index os).map Visit.occurrence).map
            Occurrence.lexeme).flatMap Lexeme.text := by
          rw [List.map_map, List.flatMap_map]
          rfl
      _ = rest := by
          rw [map_occurrence_visits, hos, Occurrence.map_lexeme_ofLexemes,
            Lexeme.flatMap_text_ofText]
  · rw [tokens_run]
    exact forall₂_flatMap fun v hv => emits_emit (hstands v hv) mode index v.progress

end Progress

end JavaHighlight
