import JavaHighlight.Proofs.Lines.Carry
import JavaHighlight.Proofs.Tiling.Lossless

/-!
# Nothing of a line is lost

Whatever is open in front of a line and whatever the context is, the tokens of the line tile it
(`Line.tilesLine_tokenizeLine`). The part that goes on with what is open and the rest of the
line are covered separately: the first by at most one token, the second by the tokens of a run.
-/

namespace JavaHighlight

/-- The tokens of a line in front of which something may be open tile the line. -/
structure TilesLine (line : String) (carry : Option Construct) (output : LineOutput) : Prop where
  tile : Span.Tile 0 line.utf8ByteSize (output.tokens.map Token.span)
  valid : ∀ token ∈ output.tokens,
    String.Pos.Raw.IsValid line ⟨token.span.start⟩ ∧
      String.Pos.Raw.IsValid line ⟨token.span.stop⟩
  texts : String.join (output.tokens.map (·.text line)) = line
  /-- What is open ends within the line. One token leads there, and the others go on from
  there. -/
  resumed : ∀ construct n, carry = some construct → construct.end? line.toList = some n →
    n ≤ line.toList.length ∧
      Text.byteSize (line.toList.take n) ≤ line.utf8ByteSize ∧
      ∃ first others, output.tokens = first :: others ∧
        first.kind = construct.kind ∧
        first.span = ⟨0, Text.byteSize (line.toList.take n)⟩ ∧
        Span.Tile (Text.byteSize (line.toList.take n)) line.utf8ByteSize (others.map Token.span)
  /-- What does not end in the line stays open. -/
  kept : ∀ construct, carry = some construct → construct.end? line.toList = none →
    output.state.carry = some construct ∧ output.tokens.length ≤ 1 ∧ output.diagnostics = []

theorem Token.map_text_of_covers {source : String} {parts : List (List Char)}
    {tokens : List Token}
    (h : List.Forall₂ (fun part token => Covers source.toList part token) parts tokens) :
    tokens.map (·.text source) = parts.map String.ofList := by
  induction h with
  | nil => rfl
  | cons hpart _ ih => rw [List.map_cons, List.map_cons, hpart.text_eq, ih]

namespace Line

theorem byteSize_take_ne_zero {construct : Construct} {cs : List Char} {n : Nat}
    (h : construct.end? cs = some n) : Text.byteSize (cs.take n) ≠ 0 := by
  have hle := Construct.end?_le h
  have hzero : n ≠ 0 := by
    rintro rfl
    exact Construct.end?_ne_zero h
  refine Nat.ne_of_gt (Text.byteSize_pos fun htake => ?_)
  rcases List.take_eq_nil_iff.mp htake with hn | hcs
  · exact hzero hn
  · rw [hcs] at hle
    exact hzero (Nat.le_zero.mp hle)

theorem length_continuation_le (construct : Construct) (stop : Nat) :
    (continuation construct stop).length ≤ 1 := by
  unfold continuation
  split
  · exact Nat.zero_le 1
  · exact Nat.le_refl 1

theorem byteSize_carriedPart_add (carry : Option Construct) (line : String) :
    Text.byteSize (carriedPart carry line.toList) +
      Lexeme.totalLength (Lexeme.ofText (rest carry line.toList)) = line.utf8ByteSize := by
  rw [Lexeme.totalLength_ofText, byteSize_parts, Text.byteSize_toList]

/-- The part that goes on with what is open is tiled by its token. -/
theorem tile_carriedTokens (carry : Option Construct) (cs : List Char) :
    Span.Tile 0 (Text.byteSize (carriedPart carry cs))
      ((carriedTokens carry cs).map Token.span) := by
  cases carry with
  | none => rfl
  | some construct =>
    show Span.Tile 0 _ ((continuation construct _).map Token.span)
    unfold continuation
    split
    case isTrue hzero => exact hzero.symm
    case isFalse hpos => exact ⟨rfl, Nat.pos_of_ne_zero hpos, rfl⟩

theorem tile_run (state : LineState) (line : String) :
    Span.Tile (Text.byteSize (carriedPart state.carry line.toList)) line.utf8ByteSize
      ((run state line.toList).1.tokens.map Token.span) := by
  have hlexemes : ∀ l ∈ Lexeme.ofText (rest state.carry line.toList), l.InText ∧ 0 < l.length :=
    fun l hl => ⟨Lexeme.inText_of_mem_ofText hl, Lexeme.length_pos_of_mem_ofText hl⟩
  have htile := Progress.tile_run hlexemes .line (LineIndex.ofText line.toList)
    ⟨contextOfRest state line.toList, 0⟩
    (Text.byteSize (carriedPart state.carry line.toList))
  rwa [byteSize_carriedPart_add] at htile

theorem covers_carriedTokens (carry : Option Construct) (cs : List Char) :
    ∃ parts : List (List Char), parts.flatten = carriedPart carry cs ∧
      List.Forall₂ (fun part token => Token.Covers cs part token) parts
        (carriedTokens carry cs) := by
  by_cases hpart : carriedPart carry cs = []
  · refine ⟨[], hpart.symm, ?_⟩
    cases carry with
    | none => exact .nil
    | some construct =>
      show List.Forall₂ _ [] (continuation construct _)
      rw [hpart]
      exact .nil
  · obtain ⟨construct, rfl⟩ : ∃ construct, carry = some construct := by
      apply Option.ne_none_iff_exists'.mp
      rintro rfl
      exact hpart rfl
    refine ⟨[carriedPart (some construct) cs], List.append_nil _, ?_⟩
    show List.Forall₂ _ _ (continuation construct _)
    rw [continuation, if_neg (Nat.ne_of_gt (Text.byteSize_pos hpart))]
    refine .cons ⟨[], rest (some construct) cs, ?_, ?_⟩ .nil
    · exact (carriedPart_append_rest _ _).symm
    · rw [Text.byteSize_nil, Nat.zero_add]

/-- The tokens of a line cover texts that make up the line. -/
theorem covers_tokenizeLine (line : String) (state : LineState) :
    ∃ parts : List (List Char), parts.flatten = line.toList ∧
      List.Forall₂ (fun part token => Token.Covers line.toList part token) parts
        (tokenizeLine line state).tokens := by
  obtain ⟨front, hfront, hcarried⟩ := covers_carriedTokens state.carry line.toList
  obtain ⟨pieces, hpieces, hemits⟩ := Progress.emits_run .line (LineIndex.ofText line.toList)
    ⟨contextOfRest state line.toList, 0⟩ (carriedPart state.carry line.toList)
    (rest state.carry line.toList) rfl
  rw [carriedPart_append_rest] at hemits
  refine ⟨front ++ pieces.map Piece.text, ?_, ?_⟩
  · rw [List.flatten_append, hfront, ← List.flatMap_def, hpieces, carriedPart_append_rest]
  · rw [tokenizeLine_eq]
    refine List.rel_append hcarried (List.forall₂_map_left_iff.mpr ?_)
    exact hemits.imp fun piece token h => h.2

/-- **A line loses nothing**, in whatever state it is tokenized: its tokens are not empty, follow
one another from its start to its end, begin and end between two characters, and their texts
make up the line. What is open ends within the line, and the rest is read from there on; or it
stays open, and then it takes up the whole line and nothing is reported. -/
theorem tilesLine_tokenizeLine (line : String) (state : LineState) :
    TilesLine line state.carry (tokenizeLine line state) := by
  obtain ⟨parts, hparts, hcovers⟩ := covers_tokenizeLine line state
  have htile : Span.Tile 0 line.utf8ByteSize ((tokenizeLine line state).tokens.map Token.span) := by
    rw [tokenizeLine_eq, List.map_append]
    exact (tile_carriedTokens state.carry line.toList).append (tile_run state line)
  refine ⟨htile, ?_, ?_, ?_, ?_⟩
  · intro token htoken
    obtain ⟨part, -, hpart⟩ := exists_of_mem_forall₂ hcovers htoken
    exact hpart.isValid
  · rw [← String.toList_inj, String.toList_join, Token.map_text_of_covers hcovers,
      List.flatMap_map, ← hparts]
    simp only [String.toList_ofList, List.flatMap_id']
  · intro construct n hcarry hend
    have hpart : carriedPart state.carry line.toList = line.toList.take n := by
      rw [hcarry, carriedPart, carriedLength, hend, Option.getD_some]
    have hrest := tile_run state line
    rw [hpart] at hrest
    refine ⟨Construct.end?_le hend, hrest.of_mem.1,
      ⟨construct.kind, ⟨0, Text.byteSize (line.toList.take n)⟩, ⟨1, 1⟩, .none⟩,
      (run state line.toList).1.tokens, ?_, rfl, rfl, hrest⟩
    rw [tokenizeLine_eq, hcarry, carriedTokens, ← hcarry, hpart,
      continuation, if_neg (byteSize_take_ne_zero hend)]
    rfl
  · intro construct hcarry hend
    have hstays : staysOpen state.carry line.toList = true := by
      rw [hcarry]
      exact staysOpen_some_iff.mpr hend
    have hrun : (run state line.toList).1 = .empty := by
      rw [run, occurrences, rest_of_staysOpen hstays, Lexeme.ofText_nil]
      rfl
    rw [tokenizeLine_eq, hrun, carryBehind, if_pos hstays, Emission.tokens_empty,
      List.append_nil]
    refine ⟨hcarry, ?_, rfl⟩
    rw [hcarry]
    exact length_continuation_le construct _

/-- A backslash takes a character of two bytes with it; the block ends behind it. -/
example : (tokenizeLine "\\é\"\"\"x" ⟨some .textBlock, .initial⟩).tokens.map Token.span =
    [⟨0, 6⟩, ⟨6, 7⟩] := by
  decide +kernel

end Line

end JavaHighlight
