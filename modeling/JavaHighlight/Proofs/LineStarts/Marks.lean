import JavaHighlight.Proofs.Lines.Cut
import JavaHighlight.Proofs.Positions.Exact

/-!
# Marks at the starts of lines

A token is marked as a line start if it is not trivia and its line is not the remembered one,
which is the line of the last token that is not trivia (`Token.Marked`). Since lines do not
decrease, the remembered line is the only one that can come again. So the marked tokens are the
first ones of their lines (`Token.Marked.lineStart_iff`), and where they start follows from where
the tokens start that are not trivia (`Token.Marked.markedStarts_eq`).
-/

namespace JavaHighlight

/-! ## The first offsets of lines -/

namespace LineIndex

def line (index : LineIndex) (offset : Nat) : Nat :=
  (index.position offset).line

/-- The offsets whose line is not that of the offset in front of them, which is `last` for the
first one. -/
def firstOnLines (index : LineIndex) : Nat → List Nat → List Nat
  | _, [] => []
  | last, o :: os =>
    (if index.line o = last then [] else [o]) ++ firstOnLines index (index.line o) os

variable {index : LineIndex} {last n : Nat} {os rest : List Nat}

theorem firstOnLines_cons (index : LineIndex) (last o : Nat) (os : List Nat) :
    index.firstOnLines last (o :: os) =
      (if index.line o = last then [] else [o]) ++ index.firstOnLines (index.line o) os := rfl

theorem firstOnLines_sublist (index : LineIndex) (last : Nat) (os : List Nat) :
    (index.firstOnLines last os).Sublist os := by
  induction os generalizing last with
  | nil => exact .slnil
  | cons o os ih =>
    rw [firstOnLines_cons]
    split
    · exact (ih _).cons o
    · exact (ih _).cons_cons o

theorem firstOnLines_append_of_last (hos : ∀ o ∈ os, index.line o = last) :
    index.firstOnLines last (os ++ rest) = index.firstOnLines last rest := by
  induction os with
  | nil => rfl
  | cons o os ih =>
    rw [List.forall_mem_cons] at hos
    rw [List.cons_append, firstOnLines_cons, if_pos hos.1, hos.1, List.nil_append, ih hos.2]

theorem firstOnLines_append_of_ne (hos : ∀ o ∈ os, index.line o = n) (hn : n ≠ last) :
    index.firstOnLines last (os ++ rest) =
      os.take 1 ++ index.firstOnLines (if os = [] then last else n) rest := by
  cases os with
  | nil => rfl
  | cons o os =>
    rw [List.forall_mem_cons] at hos
    rw [List.cons_append, firstOnLines_cons, hos.1, if_neg hn,
      firstOnLines_append_of_last hos.2, if_neg (List.cons_ne_nil o os)]
    rfl

theorem firstOnLines_of_ne (hos : ∀ o ∈ os, index.line o = n) (hn : n ≠ last) :
    index.firstOnLines last os = os.take 1 := by
  have h := @firstOnLines_append_of_ne index last n os [] hos hn
  rwa [List.append_nil, firstOnLines, List.append_nil] at h

end LineIndex

/-! ## Marked tokens -/

namespace Token

/-- The line that is remembered behind a token. -/
def lineBehind (last : Nat) (token : Token) : Nat :=
  if token.isTrivia then last else token.position.line

/-- Consecutive tokens are marked as line starts by the line that is remembered in front of
each. -/
inductive Marked : Nat → List Token → Prop
  | nil {last : Nat} : Marked last []
  | cons {last : Nat} {token : Token} {tokens : List Token}
      (hmark : token.flags.lineStart = (!token.isTrivia && token.position.line ≠ last))
      (h : Marked (token.lineBehind last) tokens) : Marked last (token :: tokens)

def markedStarts (tokens : List Token) : List Nat :=
  (tokens.filter (·.flags.lineStart)).map (·.span.start)

def significantStarts (tokens : List Token) : List Nat :=
  (tokens.filter (!·.isTrivia)).map (·.span.start)

theorem markedStarts_cons (t : Token) (ts : List Token) :
    markedStarts (t :: ts) =
      (if t.flags.lineStart = true then [t.span.start] else []) ++ markedStarts ts := by
  unfold markedStarts
  rw [List.filter_cons]
  split <;> rfl

theorem significantStarts_cons (t : Token) (ts : List Token) :
    significantStarts (t :: ts) =
      (if t.isTrivia = true then [] else [t.span.start]) ++ significantStarts ts := by
  unfold significantStarts
  rw [List.filter_cons]
  cases t.isTrivia <;> rfl

theorem markedStarts_append (a b : List Token) :
    markedStarts (a ++ b) = markedStarts a ++ markedStarts b := by
  unfold markedStarts
  rw [List.filter_append, List.map_append]

theorem significantStarts_append (a b : List Token) :
    significantStarts (a ++ b) = significantStarts a ++ significantStarts b := by
  unfold significantStarts
  rw [List.filter_append, List.map_append]

theorem significantStarts_of_isTrivia {ts : List Token} (h : ∀ t ∈ ts, t.isTrivia = true) :
    significantStarts ts = [] := by
  rw [significantStarts, List.map_eq_nil_iff, List.filter_eq_nil_iff]
  intro t ht
  simp [h t ht]

theorem significantStarts_of_not_isTrivia {ts : List Token} (h : ∀ t ∈ ts, t.isTrivia = false) :
    significantStarts ts = ts.map (·.span.start) := by
  rw [significantStarts, List.filter_eq_self.mpr]
  intro t ht
  simp [h t ht]

namespace Marked

variable {last : Nat} {tokens a b : List Token}

theorem append (ha : Marked last a) (hb : Marked (a.foldl lineBehind last) b) :
    Marked last (a ++ b) := by
  induction ha with
  | nil => exact hb
  | cons hmark _ ih => exact .cons hmark (ih hb)

/-- **A token is marked** if it is not trivia and none in front of it that is not trivia stands on
its line. -/
theorem lineStart_iff {earlier later : List Token} {token : Token}
    (h : Marked last (earlier ++ token :: later))
    (hmono : (earlier ++ token :: later).Pairwise fun a b => a.position.line ≤ b.position.line)
    (hlast : ∀ t ∈ earlier ++ token :: later, last ≤ t.position.line) :
    token.flags.lineStart = true ↔ token.isTrivia = false ∧ token.position.line ≠ last ∧
      ∀ t ∈ earlier, t.isTrivia = false → t.position.line ≠ token.position.line := by
  induction earlier generalizing last with
  | nil =>
    cases h with
    | cons hmark _ => simp [hmark]
  | cons t earlier ih =>
    rw [List.cons_append] at h hmono hlast
    obtain ⟨hfirst, hrest⟩ := List.pairwise_cons.mp hmono
    obtain ⟨hle, hles⟩ := List.forall_mem_cons.mp hlast
    cases h with
    | cons _ h =>
      have htoken : t.position.line ≤ token.position.line :=
        hfirst token (List.mem_append_right _ List.mem_cons_self)
      rw [lineBehind] at h
      cases htrivia : t.isTrivia with
      | true =>
        rw [if_pos htrivia] at h
        rw [ih h hrest hles, List.forall_mem_cons]
        simp [htrivia]
      | false =>
        rw [if_neg (by simp [htrivia])] at h
        rw [ih h hrest hfirst, List.forall_mem_cons]
        -- A line between the remembered one and that of the token cannot be both.
        constructor
        · rintro ⟨hsignificant, hne, hearlier⟩
          exact ⟨hsignificant, by omega, fun _ => Ne.symm hne, hearlier⟩
        · rintro ⟨hsignificant, -, hne, hearlier⟩
          exact ⟨hsignificant, Ne.symm (hne htrivia), hearlier⟩

/-- Marked tokens start where the first tokens of lines do. -/
theorem markedStarts_eq {index : LineIndex} (h : Marked last tokens)
    (hposition : ∀ t ∈ tokens, t.position = index.position t.span.start) :
    markedStarts tokens = index.firstOnLines last (significantStarts tokens) := by
  induction h with
  | nil => rfl
  | @cons last token tokens hmark _ ih =>
    rw [List.forall_mem_cons] at hposition
    have hline : token.position.line = index.line token.span.start :=
      congrArg Position.line hposition.1
    rw [markedStarts_cons, significantStarts_cons, ih hposition.2, lineBehind, hmark, hline]
    cases token.isTrivia with
    | true => rfl
    | false =>
      show _ = index.firstOnLines last (token.span.start :: significantStarts tokens)
      rw [LineIndex.firstOnLines_cons]
      by_cases hlast : index.line token.span.start = last
      · simp [hlast]
      · simp [hlast]

end Marked

end Token

/-! ## The tokens of a run -/

namespace Progress

/-- Tokens that lead from one state of progress to another are marked by the lines that progress
remembers. -/
structure KeepsLine (before : Progress) (tokens : List Token) (behind : Progress) : Prop where
  marked : Token.Marked before.lastLine tokens
  lastLine : behind.lastLine = tokens.foldl Token.lineBehind before.lastLine

variable {p q r : Progress} {a b : List Token}

theorem KeepsLine.append (h : KeepsLine p a q) (h' : KeepsLine q b r) :
    KeepsLine p (a ++ b) r := by
  refine ⟨h.marked.append (h.lastLine ▸ h'.marked), ?_⟩
  rw [h'.lastLine, h.lastLine, List.foldl_append]

theorem keepsLine_emitPiece (index : LineIndex) (start : Nat) (piece : Piece) (p : Progress) :
    KeepsLine p (p.emitPiece index start piece).1.tokens (p.emitPiece index start piece).2 := by
  refine ⟨.cons rfl .nil, ?_⟩
  show (if _ then _ else _) = if piece.kind.isTrivia then _ else _
  cases piece.kind.isTrivia with
  | true => rfl
  | false =>
    by_cases hline : (index.position start).line = p.lastLine
    · simp [hline]
    · simp [hline]

theorem keepsLine_emitPieces (index : LineIndex) (start : Nat) (pieces : List Piece)
    (p : Progress) :
    KeepsLine p (p.emitPieces index start pieces).1.tokens (p.emitPieces index start pieces).2 := by
  induction pieces generalizing start p with
  | nil => exact ⟨.nil, rfl⟩
  | cons piece pieces ih => exact (keepsLine_emitPiece index start piece p).append (ih _ _)

theorem keepsLine_emit (mode : Mode) (index : LineIndex) (p : Progress) (o : Occurrence) :
    KeepsLine p (p.emit mode index o).1.tokens (p.emit mode index o).2 :=
  keepsLine_emitPieces index o.start _ p

theorem keepsLine_run (mode : Mode) (index : LineIndex) (p : Progress) (os : List Occurrence) :
    KeepsLine p (p.run mode index os).1.tokens (p.run mode index os).2 := by
  induction os generalizing p with
  | nil => exact ⟨.nil, rfl⟩
  | cons o os ih => exact (keepsLine_emit mode index p o).append (ih _)

theorem markedStarts_run (mode : Mode) (index : LineIndex) (p : Progress)
    (os : List Occurrence) :
    Token.markedStarts (p.run mode index os).1.tokens =
      index.firstOnLines p.lastLine (Token.significantStarts (p.run mode index os).1.tokens) :=
  (keepsLine_run mode index p os).marked.markedStarts_eq fun _ ht => Line.position_of_mem_run ht

end Progress

end JavaHighlight
