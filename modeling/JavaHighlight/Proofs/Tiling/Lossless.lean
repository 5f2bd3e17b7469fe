import JavaHighlight.Proofs.Tiling.Tokens

/-!
# Nothing is lost

The tokens of a stream that is read to its end tile the source from the offset on at which the
stream was opened, whether or not that offset cuts a character
(`TokenStream.tilesSource_openAt`).
-/

namespace JavaHighlight

/-- The tokens from an offset on tile the source. If the offset falls between two characters,
then so do the ends of all tokens, and the texts of the tokens are what the source has behind
the offset. -/
structure TilesSource (source : String) (offset : Nat) (tokens : List Token) : Prop where
  tile : Span.Tile offset source.utf8ByteSize (tokens.map Token.span)
  valid : String.Pos.Raw.IsValid source ⟨offset⟩ → ∀ token ∈ tokens,
    String.Pos.Raw.IsValid source ⟨token.span.start⟩ ∧
      String.Pos.Raw.IsValid source ⟨token.span.stop⟩
  texts : ∀ front rest : String, source = front ++ rest → front.utf8ByteSize = offset →
    String.join (tokens.map (·.text source)) = rest

theorem Piece.map_text_of_emits {source : String} {pieces : List Piece} {tokens : List Token}
    (h : List.Forall₂ (Emits source.toList) pieces tokens) :
    tokens.map (·.text source) = pieces.map fun piece => String.ofList piece.text := by
  induction h with
  | nil => rfl
  | cons hemits _ ih => rw [List.map_cons, List.map_cons, hemits.2.text_eq, ih]

namespace TokenStream

variable {source : String} {offset : Nat}

theorem start_openAt (source : String) (offset : Nat) :
    min offset (LineIndex.ofText source.toList).size = min offset source.utf8ByteSize := by
  rw [← Text.byteSize_toList]
  rfl

theorem tile_drain_openAt (source : String) (offset : Nat) (stoppable : Bool) :
    Span.Tile (min offset source.utf8ByteSize) source.utf8ByteSize
      (((openAt source offset stoppable).drain false).tokens.map Token.span) := by
  have hstop : min offset source.utf8ByteSize +
      Lexeme.totalLength (Lexeme.ofTextFrom offset source.toList) = source.utf8ByteSize := by
    rw [Lexeme.totalLength_ofTextFrom, Text.byteSize_toList]
    omega
  have htile := Progress.tile_run
    (fun l (hl : l ∈ Lexeme.ofTextFrom offset source.toList) =>
      Lexeme.inText_of_mem_ofTextFrom hl)
    .whole (.ofText source.toList) ⟨.initial, 0⟩ (min offset source.utf8ByteSize)
  rw [hstop, ← start_openAt] at htile
  rw [← start_openAt, drain_openAt]
  exact htile

/-- From an offset between two characters on, a stream reads the lexemes of the rest. -/
theorem upcoming_openAt {front rest : List Char} (hsource : source.toList = front ++ rest)
    (hfront : Text.byteSize front = min offset source.utf8ByteSize) (stoppable : Bool) :
    (openAt source offset stoppable).upcoming =
      Occurrence.ofLexemes (Text.byteSize front) (Lexeme.ofText rest) := by
  show Occurrence.ofLexemes (min offset _) (Lexeme.ofTextFrom offset source.toList) = _
  rw [start_openAt, ← Lexeme.ofTextFrom_min, Text.byteSize_toList, ← hfront, hsource,
    Lexeme.ofTextFrom_append]

theorem emits_drain_openAt {front rest : String} (hsource : source = front ++ rest)
    (hfront : front.utf8ByteSize = min offset source.utf8ByteSize) (stoppable : Bool) :
    ∃ pieces : List Piece, pieces.flatMap Piece.text = rest.toList ∧
      List.Forall₂ (Piece.Emits source.toList) pieces
        ((openAt source offset stoppable).drain false).tokens := by
  have hlist : source.toList = front.toList ++ rest.toList := by
    rw [hsource, String.toList_append]
  rw [← Text.byteSize_toList] at hfront
  rw [drain_openAt, hlist]
  exact Progress.emits_run _ _ _ front.toList rest.toList
    (upcoming_openAt hlist hfront stoppable)

/-- **A stream loses nothing.** The lexemes that a stream reads are those of a reader that never
leaves the source and finds its end only there; the pieces of each are as long as the lexeme
itself; and the tokens, read to the end, tile the source from the offset on. -/
theorem tilesSource_openAt (source : String) (offset : Nat) (stoppable : Bool) :
    let s := openAt source offset stoppable
    let r := Reader.openAt source offset
    TilesSource source r.offset (s.drain false).tokens ∧
      r.ScansWithin ∧ s.upcoming.map Occurrence.lexeme = r.lexemes.1 ∧
      ∀ v ∈ s.visits, Piece.totalLength (v.reading .whole).pieces = v.lexeme.length := by
  intro s r
  have htexts : Lexeme.ofTextFrom r.offset source.toList =
      Lexeme.ofTextFrom offset source.toList := by
    rw [← Lexeme.ofTextFrom_min offset, Text.byteSize_toList]
    rfl
  have hupcoming : s.upcoming.map Occurrence.lexeme = r.lexemes.1 := by
    show (Occurrence.ofLexemes _ _).map _ = Lexeme.ofTextFrom r.offset source.toList
    rw [Occurrence.map_lexeme_ofLexemes, htexts]
  refine ⟨⟨tile_drain_openAt source offset stoppable, ?_, ?_⟩,
    Reader.scansWithin_openAt source offset, hupcoming, ?_⟩
  · intro hvalid token htoken
    obtain ⟨front, rest, hsource, hfront⟩ :=
      String.Pos.Raw.isValid_iff_exists_append.mp hvalid
    have hsize : front.utf8ByteSize = r.offset :=
      (congrArg String.Pos.Raw.byteIdx hfront).symm
    obtain ⟨pieces, -, hemits⟩ := emits_drain_openAt hsource hsize stoppable
    obtain ⟨piece, -, hpiece⟩ := exists_of_mem_forall₂ hemits htoken
    exact hpiece.2.isValid
  · intro front rest hsource hfront
    obtain ⟨pieces, hrest, hemits⟩ := emits_drain_openAt hsource hfront stoppable
    rw [← String.toList_inj, String.toList_join, Piece.map_text_of_emits hemits,
      List.flatMap_map, ← hrest]
    simp only [String.toList_ofList]
  · intro v hv
    have hmem : v.lexeme ∈ Lexeme.ofTextFrom offset source.toList := by
      have hlexeme : v.lexeme ∈ s.upcoming.map Occurrence.lexeme :=
        List.mem_map_of_mem (Progress.mem_of_mem_visits hv)
      rw [hupcoming] at hlexeme
      exact htexts ▸ hlexeme
    obtain ⟨hl, hpos⟩ := Lexeme.inText_of_mem_ofTextFrom hmem
    exact (Reading.length_pieces hl hpos .whole v.context v.occurrence.ahead).2

/-- Behind the character `é`, which the offset does not cut, the texts are what is left. -/
theorem tilesSource_openAt_behind_character :
    "é>> 'x" = "é" ++ ">> 'x" ∧ "é".utf8ByteSize = (Reader.openAt "é>> 'x" 2).offset ∧
      String.join (((openAt "é>> 'x" 2 false).drain false).tokens.map (·.text "é>> 'x")) =
        ">> 'x" :=
  have hsplit : "é>> 'x" = "é" ++ ">> 'x" := by decide
  have hsize : "é".utf8ByteSize = (Reader.openAt "é>> 'x" 2).offset := by decide
  ⟨hsplit, hsize, (tilesSource_openAt "é>> 'x" 2 false).1.texts "é" ">> 'x" hsplit hsize⟩

end TokenStream

end JavaHighlight
