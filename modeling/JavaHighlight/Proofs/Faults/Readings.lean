import JavaHighlight.Proofs.Kinds
import JavaHighlight.Proofs.Lines.Border
import JavaHighlight.Proofs.Lines.InStep

/-!
# Faulty lexemes

A reading finds nothing wrong with its lexeme, or it is one marked piece of a kind that goes with
the problem (`Reading.judged_ofLexeme`). What the problem says can be read off the text of the
lexeme (`Lexeme.Fault.concerns`): which literal lacks its end follows from the quotes it starts
with.
-/

namespace JavaHighlight

/-! ## Literals without an end -/

namespace LiteralForm

/-- The form of a literal, by the quotes it starts with. -/
def ofQuotes? : List Char → Option LiteralForm
  | '"' :: '"' :: '"' :: _ => some .textBlock
  | '"' :: _ => some .string
  | '\'' :: _ => some .character
  | _ => none

def openShape : LiteralForm → Shape
  | .string => .unterminatedString
  | .character => .unterminatedCharacter
  | .textBlock => .unterminatedTextBlock

theorem ofQuotes?_cons_of_ne {cs : List Char} (h : ∀ rest, cs ≠ '"' :: '"' :: rest) :
    ofQuotes? ('"' :: cs) = some .string :=
  ofQuotes?.eq_2 cs h

end LiteralForm

namespace Lexeme

theorem scanBlock_ne_openShape (form : LiteralForm) (cs : List Char) :
    (Comment.scanBlock cs).1 ≠ form.openShape := by
  unfold Comment.scanBlock
  split
  · unfold Comment.closedShape
    split <;> cases form <;> simp [LiteralForm.openShape]
  · unfold Comment.openShape
    split <;> cases form <;> simp [LiteralForm.openShape]

theorem measurePlain_ne_openShape (form : LiteralForm) (c : Char) (cs : List Char) :
    (measurePlain c cs).1 ≠ form.openShape := by
  unfold measurePlain
  split_ifs
  · cases form <;> simp [LiteralForm.openShape]
  · cases form <;> simp [LiteralForm.openShape]
  · rcases Number.scan_shape (c :: cs) with ⟨radix, h⟩ | h <;> rw [h] <;>
      cases form <;> simp [LiteralForm.openShape]
  · cases form <;> simp [LiteralForm.openShape, Number.scanFraction]
  · split <;> cases form <;> simp [LiteralForm.openShape]

theorem ofQuotes?_of_measure {form : LiteralForm} {cs : List Char}
    (h : (measure cs).1 = form.openShape) :
    LiteralForm.ofQuotes? (cs.take (measure cs).2) = some form := by
  rw [measure.eq_def] at h ⊢
  split at h
  · cases form <;> cases h
  · cases form <;> cases h
  · next cs => exact absurd h (scanBlock_ne_openShape form cs)
  · next cs =>
    by_cases hblock : ∃ rest, cs = '"' :: '"' :: rest
    · obtain ⟨rest, rfl⟩ := hblock
      rw [Literal.scanDouble_eq] at h ⊢
      have hform : form = .textBlock := by
        unfold Construct.shapeIn at h
        cases form with
        | textBlock => rfl
        | string | character => split at h <;> cases h
      dsimp only
      rw [hform, Nat.add_comm, List.take_succ_cons, List.take_succ_cons, List.take_succ_cons]
      rfl
    · have hne : ∀ rest, cs ≠ '"' :: '"' :: rest := fun rest hrest => hblock ⟨rest, hrest⟩
      rw [scanDouble_of_ne hne] at h ⊢
      have hform : form = .string := by
        dsimp only at h
        cases form with
        | string => rfl
        | textBlock | character => split at h <;> cases h
      dsimp only
      rw [hform, Nat.add_comm, List.take_succ_cons]
      refine LiteralForm.ofQuotes?_cons_of_ne fun rest hrest => ?_
      let n := (Literal.content '"' cs).2
      have hcs : cs = '"' :: '"' :: (rest ++ cs.drop n) :=
        calc cs = cs.take n ++ cs.drop n := (List.take_append_drop n cs).symm
          _ = '"' :: '"' :: (rest ++ cs.drop n) := by rw [hrest]; rfl
      exact hne _ hcs
  · next cs =>
    have hform : form = .character := by
      unfold Literal.scanSingle at h
      dsimp only at h
      cases form with
      | character => rfl
      | textBlock | string => split at h <;> cases h
    unfold Literal.scanSingle
    dsimp only
    rw [hform, Nat.add_comm, List.take_succ_cons]
    rfl
  · next c cs _ _ _ _ =>
    exact absurd h (measurePlain_ne_openShape form c cs)

theorem ofQuotes?_of_mem_ofText {form : LiteralForm} {cs : List Char} {l : Lexeme}
    (h : l ∈ ofText cs) (hl : l.shape = form.openShape) :
    LiteralForm.ofQuotes? l.text = some form := by
  obtain ⟨c, ds, rfl⟩ := exists_eq_first h
  exact ofQuotes?_of_measure hl

end Lexeme

/-! ## Faults -/

/-- The problems that a token of the given kind and text is marked for. -/
inductive Problem.Concerns : TokenKind → List Char → Problem → Prop
  | literal {text : List Char} {form : LiteralForm}
      (hquotes : LiteralForm.ofQuotes? text = some form) :
      Concerns .unterminatedLiteral text (.unterminatedLiteral form)
  | comment {kind : TokenKind} {text : List Char} (hkind : kind.isComment = true) :
      Concerns kind text .unterminatedComment
  | angle : Concerns .operator ['<'] .unresolvedAngle
  | character (text : List Char) : Concerns .unknown text (.unknownCharacter (text.headD '\x00'))
  | unexpected {kind : TokenKind} {found : Char}
      (hkind : (kind, found) ∈ [(TokenKind.rightBrace, '\x7d'), (.rightParen, ')')]) :
      Concerns kind [found] (.unbalanced (.unexpectedCloser found))
  | mismatched {kind : TokenKind} {found : Char} (expected : Char)
      (hkind : (kind, found) ∈ [(TokenKind.rightBrace, '\x7d'), (.rightParen, ')')]) :
      Concerns kind [found] (.unbalanced (.mismatched expected found))

/-- What is wrong with a lexeme as such, with the kind of its token. A line may leave comments
and text blocks open. -/
inductive Lexeme.Fault (mode : Mode) (l : Lexeme) : TokenKind → Problem → Prop
  | literal {form : LiteralForm} (hl : l.shape = form.openShape)
      (hmode : form = .textBlock → mode = .whole) :
      Fault mode l .unterminatedLiteral (.unterminatedLiteral form)
  | comment {kind : TokenKind} (hl : l.shape.isOpen = true) (hkind : kind.isComment = true)
      (hmode : mode = .whole) : Fault mode l kind .unterminatedComment
  | angle (hl : l.shape = .symbol .less) : Fault mode l .operator .unresolvedAngle
  | atSign (hl : l.shape = .symbol .atSign) : Fault mode l .unknown (.unknownCharacter '@')
  | character : Fault mode l .unknown (.unknownCharacter (l.text.headD '\x00'))

theorem Lexeme.Fault.concerns {mode : Mode} {l : Lexeme} {kind : TokenKind} {problem : Problem}
    (h : l.Fault mode kind problem) {cs : List Char} (hl : l ∈ ofText cs) :
    problem.Concerns kind l.text := by
  cases h with
  | literal hshape => exact .literal (ofQuotes?_of_mem_ofText hl hshape)
  | comment _ hkind => exact .comment hkind
  | angle hshape =>
    rw [text_of_symbol hl hshape]
    exact .angle
  | atSign hshape =>
    rw [text_of_symbol hl hshape]
    exact .character ['@']
  | character => exact .character l.text

theorem Lexeme.Fault.closes?_eq_none {mode : Mode} {l : Lexeme} {kind : TokenKind}
    {problem : Problem} (h : l.Fault mode kind problem) : Context.closes? kind = none := by
  cases h with
  | comment _ hkind => cases kind <;> first | rfl | cases hkind
  | _ => rfl

/-- A comment or a text block that lacks its end. -/
def Problem.leavesOpen : Problem → Bool
  | .unterminatedComment | .unterminatedLiteral .textBlock => true
  | _ => false

/-- A token of a comment is marked for lacking its end, and so is a literal with three quotes. -/
theorem Problem.Concerns.leavesOpen_eq {kind : TokenKind} {text : List Char} {problem : Problem}
    (h : problem.Concerns kind text) (hkind : kind.isComment = true ∨
      kind = .unterminatedLiteral ∧ LiteralForm.ofQuotes? text = some .textBlock) :
    problem.leavesOpen = true := by
  cases h with
  | literal hquotes =>
    rcases hkind with hkind | ⟨-, htextBlock⟩
    · cases hkind
    · obtain rfl := Option.some.inj (hquotes.symm.trans htextBlock)
      rfl
  | comment => rfl
  | angle | character => rcases hkind with hkind | ⟨hkind, -⟩ <;> cases hkind
  | unexpected hfound | mismatched _ hfound =>
    rcases List.mem_cons.mp hfound with hfound | hfound
    · rw [(Prod.mk.inj hfound).1] at hkind
      rcases hkind with hkind | ⟨hkind, -⟩ <;> cases hkind
    · rw [(Prod.mk.inj (List.mem_singleton.mp hfound)).1] at hkind
      rcases hkind with hkind | ⟨hkind, -⟩ <;> cases hkind

theorem Problem.Concerns.ne_unclosed {kind : TokenKind} {text : List Char} {problem : Problem}
    (h : problem.Concerns kind text) (count : Nat) (innermost : Char) :
    problem ≠ .unbalanced (.unclosed count innermost) := by
  rintro rfl
  cases h

theorem Lexeme.Fault.of_leavesOpen {mode : Mode} {l : Lexeme} {kind : TokenKind}
    {problem : Problem} (h : l.Fault mode kind problem) (hopen : problem.leavesOpen = true) :
    mode = .whole ∧ l.shape.isOpen = true := by
  cases h with
  | @literal form hl hmode =>
    cases form with
    | textBlock => exact ⟨hmode rfl, by rw [hl]; rfl⟩
    | string | character => cases hopen
  | comment hl _ hmode => exact ⟨hmode, hl⟩
  | _ => cases hopen

namespace Reading

/-- The kinds of tokens that are nothing but a problem. -/
def faultyKinds : List TokenKind := [.unterminatedLiteral, .unknown]

/-- A reading finds nothing wrong with its lexeme, or it is one marked piece. -/
inductive Judged (mode : Mode) (l : Lexeme) : Reading → Prop
  | sound {reading : Reading} (hproblem : reading.problem = none)
      (hpieces : ∀ piece ∈ reading.pieces, piece.flags.error = false ∧ piece.kind ∉ faultyKinds) :
      Judged mode l reading
  | faulty {kind : TokenKind} {problem : Problem} (h : l.Fault mode kind problem) :
      Judged mode l (faulty l kind problem)

variable {mode : Mode} {l : Lexeme}

theorem judged_plain {kind : TokenKind} (h : kind ∉ faultyKinds) : Judged mode l (plain l kind) :=
  .sound rfl (List.forall_mem_singleton.mpr ⟨rfl, h⟩)

theorem judged_ofOpen {kind faultyKind : TokenKind} {problem : Problem} (h : kind ∉ faultyKinds)
    (hfault : l.Fault .whole faultyKind problem) :
    Judged mode l (ofOpen mode l kind faultyKind problem) := by
  cases mode with
  | whole => exact .faulty hfault
  | line => exact judged_plain h

theorem not_faulty_of_mem_wordKinds {kind : TokenKind} (h : kind ∈ Shape.wordKinds) :
    kind ∉ faultyKinds := by
  have key : ∀ kind ∈ Shape.wordKinds, kind ∉ faultyKinds := by decide
  exact key kind h

theorem judged_ofWord (ctx : Context) (l : Lexeme) (ahead : List Lexeme) :
    Judged mode l (ofWord ctx l ahead) := by
  unfold ofWord
  split
  · exact judged_plain (by decide)
  · split
    · next kind h =>
      exact judged_plain (not_faulty_of_mem_wordKinds (Keyword.mem_wordKinds_of_kind? h))
    · split
      · exact judged_plain (by decide)
      · split
        · next kind h =>
          refine .sound rfl (List.forall_mem_singleton.mpr ⟨rfl, ?_⟩)
          show kind ∉ faultyKinds
          rcases restrictedKind?_mem h with rfl | rfl <;> decide
        · exact judged_plain (not_faulty_of_mem_wordKinds (nameKind_mem ctx ahead))

theorem judged_ofClosingAngles (ctx : Context) (l : Lexeme) :
    Judged mode l (ofClosingAngles ctx l) := by
  have hkinds : ∀ piece ∈ (ofClosingAngles ctx l).pieces, piece.kind ∉ faultyKinds := by
    intro piece hpiece
    rcases kind_of_mem_ofClosingAngles hpiece with h | h <;> rw [h] <;> decide
  have hmarks : ∀ piece ∈ (ofClosingAngles ctx l).pieces, piece.flags.error = false := by
    intro piece hpiece
    rcases pieces_ofClosingAngles ctx l with h | ⟨closing, -, -, h⟩
    · rw [h, List.mem_singleton] at hpiece
      rw [hpiece]
      rfl
    · rw [h, List.mem_append] at hpiece
      rcases hpiece with hpiece | hpiece
      · rw [List.eq_of_mem_replicate hpiece]
        rfl
      · split at hpiece
        · rw [List.mem_singleton.mp hpiece]
          rfl
        · cases hpiece
  refine .sound ?_ fun piece hpiece => ⟨hmarks piece hpiece, hkinds piece hpiece⟩
  unfold ofClosingAngles
  dsimp only
  split_ifs <;> rfl

theorem judged_ofSymbol {s : Symbol} (hl : l.shape = .symbol s) (ctx : Context)
    (ahead : List Lexeme) : Judged mode l (ofSymbol ctx l ahead s) := by
  unfold ofSymbol
  split
  · unfold ofAtSign
    split
    · exact judged_plain (by split <;> decide)
    · exact .faulty (.atSign hl)
  · unfold ofLess
    split_ifs
    · exact judged_plain (by decide)
    · split
      · exact judged_plain (by decide)
      · exact judged_plain (by decide)
      · exact .faulty (.angle hl)
    · exact judged_plain (by decide)
  · exact judged_ofClosingAngles ctx l
  · exact judged_ofClosingAngles ctx l
  · exact judged_ofClosingAngles ctx l
  · have hkind : TokenKind.leftParen ∉ faultyKinds := by decide
    exact .sound rfl (List.forall_mem_singleton.mpr ⟨rfl, hkind⟩)
  · have key : ∀ s ∈ Symbol.all, symbolKind s ∉ faultyKinds := by decide
    exact judged_plain (key s s.mem_all)

theorem openCommentKind_isComment (l : Lexeme) : (openCommentKind l).isComment = true := by
  unfold openCommentKind
  split_ifs <;> rfl

/-- A reading finds nothing wrong with its lexeme, or it is one marked piece. -/
theorem judged_ofLexeme (mode : Mode) (ctx : Context) (l : Lexeme) (ahead : List Lexeme) :
    Judged mode l (ofLexeme mode ctx l ahead) := by
  unfold ofLexeme
  cases hl : l.shape with
  | word => exact judged_ofWord ctx l ahead
  | symbol s => exact judged_ofSymbol hl ctx ahead
  | unterminatedString => exact .faulty (.literal hl (by rintro ⟨⟩))
  | unterminatedCharacter => exact .faulty (.literal hl (by rintro ⟨⟩))
  | unterminatedTextBlock => exact judged_ofOpen (by decide) (.literal hl fun _ => rfl)
  | unterminatedBlockComment | unterminatedNativeBlock =>
    have hkind := openCommentKind_isComment l
    refine judged_ofOpen ?_ (.comment (by rw [hl]; rfl) hkind rfl)
    generalize openCommentKind l = kind at hkind
    cases kind <;> first | decide | cases hkind
  | unknown | stray => exact .faulty .character
  | endOfInput => exact .sound rfl fun piece h => absurd h List.not_mem_nil
  | _ => exact judged_plain (by decide)

theorem Judged.exists_fault {reading : Reading} (h : Judged mode l reading) {problem : Problem}
    (hproblem : reading.problem = some problem) : ∃ kind, l.Fault mode kind problem := by
  cases h with
  | sound hnone => rw [hnone] at hproblem; cases hproblem
  | @faulty kind problem' hfault =>
    obtain rfl : problem' = problem := Option.some.inj hproblem
    exact ⟨kind, hfault⟩

end Reading

end JavaHighlight
