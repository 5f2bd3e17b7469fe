import JavaHighlight.Reading
import Mathlib.Tactic.SplitIfs

/-!
# The kinds of a shape

What a lexeme means depends on its context, but its shape leaves few kinds to choose from
(`Reading.kind_mem_kinds`). All lexemes but the runs of closing angle brackets are one piece
(`Reading.isOnePiece_ofLexeme`).
-/

namespace JavaHighlight

def Shape.wordKinds : List TokenKind := [
  .annotationPart, .keyword, .keywordControl, .keywordReturn, .keywordNew, .keywordThis,
  .booleanLiteral, .nullLiteral, .className, .moduleKeyword, .enumConstant, .functionName,
  .identifier]

def Symbol.kinds : Symbol → List TokenKind
  | .atSign => [.keyword, .annotationPart, .unknown]
  | .less => [.genericOpen, .operator]
  | .greater | .shiftRight | .unsignedShiftRight => [.genericClose, .operator]
  | s => [Reading.symbolKind s]

/-- The kinds that the pieces of a lexeme of this shape can have. -/
def Shape.kinds : Shape → List TokenKind
  | .word => wordKinds
  | .symbol s => s.kinds
  | .integer _ => [.integerLiteral]
  | .float => [.floatLiteral]
  | .character => [.charLiteral]
  | .string => [.stringLiteral]
  | .textBlock => [.textBlock]
  | .blank => [.whitespace]
  | .lineComment => [.commentLine]
  | .blockComment => [.commentBlock]
  | .javadocComment => [.commentJavadoc]
  | .nativeBlock => [.nativeBlock]
  | .unterminatedString | .unterminatedCharacter => [.unterminatedLiteral]
  | .unterminatedTextBlock => [.textBlock, .unterminatedLiteral]
  | .unterminatedBlockComment => [.commentBlock, .commentJavadoc]
  | .unterminatedNativeBlock => [.nativeBlock]
  | .unknown | .stray => [.unknown]
  | .endOfInput => []

/-- The brackets and the semicolon: the tokens that are the same wherever they stand. -/
def TokenKind.delimiters : List TokenKind := [
  .leftBrace, .rightBrace, .leftParen, .rightParen, .semicolon]

/-- The brackets of type arguments. -/
def TokenKind.isAngle (kind : TokenKind) : Bool :=
  kind = .genericOpen || kind = .genericClose

/-- A delimiter is written with the symbol that has its kind. -/
theorem Shape.eq_symbol_of_delimiter {shape : Shape} {kind : TokenKind}
    (hkind : kind ∈ shape.kinds) (hdelimiter : kind ∈ TokenKind.delimiters) :
    ∃ s, shape = .symbol s ∧ Reading.symbolKind s = kind ∧ s.closingAngles = 0 := by
  cases shape with
  | symbol s =>
    refine ⟨s, rfl, ?_⟩
    have key : ∀ s ∈ Symbol.all, ∀ kind ∈ TokenKind.delimiters, kind ∈ s.kinds →
        Reading.symbolKind s = kind ∧ s.closingAngles = 0 := by decide
    exact key s s.mem_all kind hdelimiter hkind
  | integer radix =>
    cases radix <;>
      exact absurd hkind ((by decide : ∀ k ∈ TokenKind.delimiters, k ∉ Shape.kinds _) _ hdelimiter)
  | _ =>
    exact absurd hkind ((by decide : ∀ k ∈ TokenKind.delimiters, k ∉ Shape.kinds _) _ hdelimiter)

theorem Shape.eq_less_of_genericOpen {shape : Shape}
    (h : TokenKind.genericOpen ∈ shape.kinds) : shape = .symbol .less := by
  cases shape with
  | symbol s =>
    have key : ∀ s ∈ Symbol.all, TokenKind.genericOpen ∈ s.kinds → s = .less := by decide
    rw [key s s.mem_all h]
  | integer radix => cases radix <;> exact absurd h (by decide)
  | _ => exact absurd h (by decide)

theorem Shape.closingAngles_of_genericClose {shape : Shape}
    (h : TokenKind.genericClose ∈ shape.kinds) : shape.closingAngles ≠ 0 := by
  cases shape with
  | symbol s =>
    have key : ∀ s ∈ Symbol.all, TokenKind.genericClose ∈ s.kinds → s.closingAngles ≠ 0 := by
      decide
    exact key s s.mem_all h
  | integer radix => cases radix <;> exact absurd h (by decide)
  | _ => exact absurd h (by decide)

theorem Shape.isTrivia_of_mem_kinds {shape : Shape} (h : shape.isTrivia = true)
    {kind : TokenKind} (hkind : kind ∈ shape.kinds) : kind.isTrivia = true := by
  cases shape with
  | blank | lineComment | blockComment | javadocComment | nativeBlock =>
    rw [List.mem_singleton.mp hkind]; decide
  | _ => cases h

theorem Shape.exists_kinds_of_isTrivia {shape : Shape} (h : shape.isTrivia = true) :
    ∃ kind, shape.kinds = [kind] := by
  cases shape with
  | blank | lineComment | blockComment | javadocComment | nativeBlock => exact ⟨_, rfl⟩
  | _ => cases h

theorem Shape.closingAngles_of_isTrivia {shape : Shape} (h : shape.isTrivia = true) :
    shape.closingAngles = 0 ∧ shape ≠ .endOfInput := by
  cases shape with
  | blank | lineComment | blockComment | javadocComment | nativeBlock => exact ⟨rfl, by simp⟩
  | _ => cases h

namespace Keyword

theorem mem_wordKinds_of_kind? {word : String} {kind : TokenKind} (h : kind? word = some kind) :
    kind ∈ Shape.wordKinds := by
  unfold kind? at h
  split_ifs at h <;> cases h <;> decide

end Keyword

namespace Reading

/-! ## Words -/

theorem restrictedKind?_mem {ctx : Context} {word : String} {ahead : List Lexeme}
    {kind : TokenKind} (h : restrictedKind? ctx word ahead = some kind) :
    kind = .moduleKeyword ∨ kind = .keyword := by
  unfold restrictedKind? at h
  split_ifs at h <;> cases h <;> simp

theorem nameKind_mem (ctx : Context) (ahead : List Lexeme) :
    nameKind ctx ahead ∈ Shape.wordKinds := by
  unfold nameKind
  split_ifs <;> decide

/-- A lexeme is read as one piece, of a kind that its shape allows. -/
def IsOnePiece (l : Lexeme) (reading : Reading) : Prop :=
  ∃ kind ∈ l.shape.kinds, ∃ flags opensLambda,
    reading.pieces = [⟨kind, l.text, l.length, flags, opensLambda⟩]

theorem isOnePiece_plain {l : Lexeme} {kind : TokenKind} (h : kind ∈ l.shape.kinds) :
    IsOnePiece l (plain l kind) :=
  ⟨kind, h, _, _, rfl⟩

theorem isOnePiece_faulty {l : Lexeme} {kind : TokenKind} (h : kind ∈ l.shape.kinds)
    (problem : Problem) : IsOnePiece l (faulty l kind problem) :=
  ⟨kind, h, _, _, rfl⟩

theorem isOnePiece_ofOpen {l : Lexeme} {kind faultyKind : TokenKind} (h : kind ∈ l.shape.kinds)
    (h' : faultyKind ∈ l.shape.kinds) (mode : Mode) (problem : Problem) :
    IsOnePiece l (ofOpen mode l kind faultyKind problem) := by
  cases mode with
  | whole => exact isOnePiece_faulty h' problem
  | line => exact isOnePiece_plain h

theorem isOnePiece_ofWord {l : Lexeme} (hl : l.shape = .word) (ctx : Context)
    (ahead : List Lexeme) : IsOnePiece l (ofWord ctx l ahead) := by
  have hkinds : ∀ kind ∈ Shape.wordKinds, kind ∈ l.shape.kinds := by
    intro kind h; rw [hl]; exact h
  unfold ofWord
  split
  · exact isOnePiece_plain (hkinds _ (by decide))
  · split
    · next kind h => exact isOnePiece_plain (hkinds _ (Keyword.mem_wordKinds_of_kind? h))
    · split
      · exact isOnePiece_plain (hkinds _ (by decide))
      · split
        · next kind h =>
          refine ⟨kind, hkinds _ ?_, _, _, rfl⟩
          rcases restrictedKind?_mem h with rfl | rfl <;> decide
        · exact isOnePiece_plain (hkinds _ (nameKind_mem ctx ahead))

/-! ## Symbols -/

theorem isOnePiece_ofAtSign {l : Lexeme} (hl : l.shape = .symbol .atSign)
    (ahead : List Lexeme) : IsOnePiece l (ofAtSign l ahead) := by
  unfold ofAtSign
  split
  · apply isOnePiece_plain
    rw [hl]
    split <;> decide
  · exact isOnePiece_faulty (by rw [hl]; decide) _

theorem isOnePiece_ofLess {l : Lexeme} (hl : l.shape = .symbol .less) (ctx : Context)
    (ahead : List Lexeme) : IsOnePiece l (ofLess ctx l ahead) := by
  have hopen : TokenKind.genericOpen ∈ l.shape.kinds := by rw [hl]; decide
  have hoperator : TokenKind.operator ∈ l.shape.kinds := by rw [hl]; decide
  unfold ofLess
  split
  · exact isOnePiece_plain hopen
  · split
    · split
      · exact isOnePiece_plain hopen
      · exact isOnePiece_plain hoperator
      · exact isOnePiece_faulty hoperator _
    · exact isOnePiece_plain hoperator

theorem isOnePiece_ofLeftParen {l : Lexeme} (hl : l.shape = .symbol .leftParen) (ctx : Context)
    (ahead : List Lexeme) : IsOnePiece l (ofLeftParen ctx l ahead) :=
  ⟨.leftParen, by rw [hl]; decide, _, _, rfl⟩

theorem isOnePiece_ofSymbol {l : Lexeme} {s : Symbol} (hl : l.shape = .symbol s)
    (h : s.closingAngles = 0) (ctx : Context) (ahead : List Lexeme) :
    IsOnePiece l (ofSymbol ctx l ahead s) := by
  unfold ofSymbol
  split
  · exact isOnePiece_ofAtSign hl ahead
  · exact isOnePiece_ofLess hl ctx ahead
  · cases h
  · cases h
  · cases h
  · exact isOnePiece_ofLeftParen hl ctx ahead
  · apply isOnePiece_plain
    rw [hl]
    have key : ∀ s ∈ Symbol.all, s ≠ .atSign → s ≠ .less → s.closingAngles = 0 →
        symbolKind s ∈ s.kinds := by decide
    exact key s s.mem_all (by assumption) (by assumption) h

/-! ## All lexemes -/

theorem openCommentKind_mem {l : Lexeme} (h : l.shape = .unterminatedBlockComment ∨
    l.shape = .unterminatedNativeBlock) : openCommentKind l ∈ l.shape.kinds := by
  unfold openCommentKind
  rcases h with h | h
  · rw [if_neg (by rw [h]; decide), h]
    split <;> decide
  · rw [if_pos h, h]
    decide

/-- All lexemes but the runs of closing angle brackets are one piece. -/
theorem isOnePiece_ofLexeme {l : Lexeme} (h : l.shape.closingAngles = 0)
    (hend : l.shape ≠ .endOfInput) (mode : Mode) (ctx : Context) (ahead : List Lexeme) :
    IsOnePiece l (ofLexeme mode ctx l ahead) := by
  unfold ofLexeme
  cases hl : l.shape with
  | word => exact isOnePiece_ofWord hl ctx ahead
  | symbol s => exact isOnePiece_ofSymbol hl (by rw [hl] at h; exact h) ctx ahead
  | integer radix => exact isOnePiece_plain (by rw [hl]; exact List.mem_singleton_self _)
  | unterminatedTextBlock =>
    exact isOnePiece_ofOpen (by rw [hl]; decide) (by rw [hl]; decide) mode _
  | unterminatedBlockComment =>
    have hkind := openCommentKind_mem (.inl hl)
    exact isOnePiece_ofOpen hkind hkind mode _
  | unterminatedNativeBlock =>
    have hkind := openCommentKind_mem (.inr hl)
    exact isOnePiece_ofOpen hkind hkind mode _
  | unterminatedString | unterminatedCharacter | unknown | stray =>
    exact isOnePiece_faulty (by rw [hl]; decide) _
  | endOfInput => exact absurd hl hend
  | _ => exact isOnePiece_plain (by rw [hl]; decide)

theorem ofLexeme_of_closingAngles {l : Lexeme} (h : l.shape.closingAngles ≠ 0) (mode : Mode)
    (ctx : Context) (ahead : List Lexeme) :
    ofLexeme mode ctx l ahead = ofClosingAngles ctx l := by
  unfold ofLexeme
  cases hl : l.shape with
  | symbol s =>
    rw [hl] at h
    cases s with
    | greater | shiftRight | unsignedShiftRight => rfl
    | _ => exact absurd rfl h
  | _ => rw [hl] at h; exact absurd rfl h

theorem kind_of_mem_ofClosingAngles {ctx : Context} {l : Lexeme} {piece : Piece}
    (h : piece ∈ (ofClosingAngles ctx l).pieces) :
    piece.kind = .genericClose ∨ piece.kind = .operator := by
  unfold ofClosingAngles at h
  dsimp only at h
  split_ifs at h with h0 hless
  · exact .inr (by rw [List.mem_singleton.mp h]; rfl)
  · rcases List.mem_append.mp h with h | h
    · exact .inl (by rw [List.eq_of_mem_replicate h]; rfl)
    · exact .inr (by rw [List.mem_singleton.mp h]; rfl)
  · rw [List.append_nil] at h
    exact .inl (by rw [List.eq_of_mem_replicate h]; rfl)

/-- The shape of a lexeme leaves few kinds to choose from. -/
theorem kind_mem_kinds {mode : Mode} {ctx : Context} {l : Lexeme} {ahead : List Lexeme}
    {piece : Piece} (h : piece ∈ (ofLexeme mode ctx l ahead).pieces) :
    piece.kind ∈ l.shape.kinds := by
  by_cases hend : l.shape = .endOfInput
  · rw [ofLexeme, hend] at h
    exact absurd h List.not_mem_nil
  by_cases hangles : l.shape.closingAngles = 0
  · obtain ⟨kind, hkind, flags, opensLambda, hpieces⟩ :=
      isOnePiece_ofLexeme hangles hend mode ctx ahead
    rw [hpieces, List.mem_singleton] at h
    rw [h]
    exact hkind
  · rw [ofLexeme_of_closingAngles hangles] at h
    have hkind := kind_of_mem_ofClosingAngles h
    cases hl : l.shape with
    | symbol s =>
      rw [hl] at hangles
      have key : ∀ s ∈ Symbol.all, s.closingAngles ≠ 0 → s.kinds = [.genericClose, .operator] := by
        decide
      rw [Shape.kinds, key s s.mem_all hangles]
      rcases hkind with h | h <;> rw [h] <;> decide
    | _ => rw [hl] at hangles; exact absurd rfl hangles

/-! ## Problems -/

/-- What is wrong with a lexeme, if anything, is wrong with its characters or its lookahead, and
not with how it fits what is open. -/
def NotUnbalanced (reading : Reading) : Prop :=
  ∀ issue, reading.problem ≠ some (.unbalanced issue)

theorem notUnbalanced_of_none {reading : Reading} (h : reading.problem = none) :
    NotUnbalanced reading := by
  intro issue
  rw [h]
  simp

theorem notUnbalanced_ofOpen {problem : Problem} (h : ∀ issue, problem ≠ .unbalanced issue)
    (mode : Mode) (l : Lexeme) (kind faultyKind : TokenKind) :
    NotUnbalanced (ofOpen mode l kind faultyKind problem) := by
  cases mode with
  | whole => exact fun issue hissue => h issue (Option.some.inj hissue)
  | line => exact notUnbalanced_of_none rfl

theorem notUnbalanced_ofWord (ctx : Context) (l : Lexeme) (ahead : List Lexeme) :
    NotUnbalanced (ofWord ctx l ahead) := by
  apply notUnbalanced_of_none
  unfold ofWord
  repeat' split
  all_goals rfl

theorem notUnbalanced_ofSymbol (ctx : Context) (l : Lexeme) (ahead : List Lexeme) (s : Symbol) :
    NotUnbalanced (ofSymbol ctx l ahead s) := by
  have hclosing : NotUnbalanced (ofClosingAngles ctx l) := by
    apply notUnbalanced_of_none
    unfold ofClosingAngles
    dsimp only
    split_ifs <;> rfl
  unfold ofSymbol
  split
  · unfold ofAtSign
    split
    · exact notUnbalanced_of_none rfl
    · simp [NotUnbalanced, faulty]
  · unfold ofLess
    split_ifs
    · exact notUnbalanced_of_none rfl
    · split
      · exact notUnbalanced_of_none rfl
      · exact notUnbalanced_of_none rfl
      · simp [NotUnbalanced, faulty]
    · exact notUnbalanced_of_none rfl
  · exact hclosing
  · exact hclosing
  · exact hclosing
  · exact notUnbalanced_of_none rfl
  · exact notUnbalanced_of_none rfl

theorem notUnbalanced_ofLexeme (mode : Mode) (ctx : Context) (l : Lexeme)
    (ahead : List Lexeme) : NotUnbalanced (ofLexeme mode ctx l ahead) := by
  unfold ofLexeme
  cases l.shape with
  | word => exact notUnbalanced_ofWord ctx l ahead
  | symbol s => exact notUnbalanced_ofSymbol ctx l ahead s
  | unterminatedTextBlock | unterminatedBlockComment | unterminatedNativeBlock =>
    exact notUnbalanced_ofOpen (by simp) mode l _ _
  | unterminatedString | unterminatedCharacter | unknown | stray =>
    simp [NotUnbalanced, faulty]
  | _ => exact notUnbalanced_of_none rfl

end Reading

end JavaHighlight
