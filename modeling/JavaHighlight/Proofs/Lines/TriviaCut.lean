import JavaHighlight.Proofs.Lines.Closed

/-!
# Trivia cut in two

Cutting a blank or a comment of a source in two cuts the token that it emits (`Token.cut`) and
changes nothing else: neither the other tokens and the diagnostics nor the context
(`Lexeme.TriviaCut.run_eq`). The lexemes of a text are cut like that at the end of a line into
those of the line and those of what follows (`Line.triviaCut_resume`).
-/

namespace JavaHighlight

open Text (EndsLine)

/-! ## Cutting tokens -/

/-- The tokens on both sides of an offset, for trivia that reaches over it. The second one stands
at the offset. -/
def Token.cut (index : LineIndex) (offset : Nat) (token : Token) : List Token :=
  if token.isTrivia = true ∧ token.span.start < offset ∧ offset < token.span.stop then
    [{ token with span := ⟨token.span.start, offset⟩ },
      { token with span := ⟨offset, token.span.stop⟩, position := index.position offset }]
  else [token]

/-- The tokens between offsets, for trivia that reaches over them. -/
def Token.cutAt (index : LineIndex) : List Nat → Token → List Token
  | [], token => [token]
  | offset :: offsets, token => (token.cut index offset).flatMap (cutAt index offsets)

namespace Emission

variable {index : LineIndex} {offset : Nat} {offsets : List Nat} {e : Emission}

def cut (index : LineIndex) (offset : Nat) (e : Emission) : Emission :=
  ⟨e.tokens.flatMap (Token.cut index offset), e.diagnostics⟩

def cutAt (index : LineIndex) (offsets : List Nat) (e : Emission) : Emission :=
  ⟨e.tokens.flatMap (Token.cutAt index offsets), e.diagnostics⟩

theorem cut_append (index : LineIndex) (offset : Nat) (a b : Emission) :
    (a ++ b).cut index offset = a.cut index offset ++ b.cut index offset := by
  show mk _ _ = mk _ _
  rw [tokens_append, List.flatMap_append]
  rfl

theorem cutAt_append (index : LineIndex) (offsets : List Nat) (a b : Emission) :
    (a ++ b).cutAt index offsets = a.cutAt index offsets ++ b.cutAt index offsets := by
  show mk _ _ = mk _ _
  rw [tokens_append, List.flatMap_append]
  rfl

theorem cutAt_nil (index : LineIndex) (e : Emission) : e.cutAt index [] = e := by
  show mk _ _ = e
  have hsingle : e.tokens.flatMap (Token.cutAt index []) = e.tokens :=
    List.flatMap_singleton' e.tokens
  rw [hsingle]

theorem cutAt_cons (index : LineIndex) (offset : Nat) (offsets : List Nat) (e : Emission) :
    e.cutAt index (offset :: offsets) = (e.cut index offset).cutAt index offsets := by
  show mk _ _ = mk _ _
  rw [cut, List.flatMap_assoc]
  rfl

theorem cut_of_outside
    (h : ∀ token ∈ e.tokens, offset ≤ token.span.start ∨ token.span.stop ≤ offset) :
    e.cut index offset = e := by
  have htokens : ∀ tokens : List Token,
      (∀ token ∈ tokens, offset ≤ token.span.start ∨ token.span.stop ≤ offset) →
      tokens.flatMap (Token.cut index offset) = tokens := by
    intro tokens htokens
    induction tokens with
    | nil => rfl
    | cons token tokens ih =>
      rw [List.forall_mem_cons] at htokens
      rw [List.flatMap_cons, ih htokens.2, Token.cut, if_neg (by omega)]
      rfl
  show mk _ _ = e
  rw [htokens e.tokens h]

theorem cut_of_isTrivia (index : LineIndex) {kind : TokenKind} (hkind : kind.isTrivia = true)
    {start m n : Nat} (hm : 0 < m) (hn : 0 < n) (position : Position) :
    cut index (start + m) ⟨[⟨kind, ⟨start, start + (m + n)⟩, position, .none⟩], []⟩ =
      ⟨[⟨kind, ⟨start, start + m⟩, position, .none⟩], []⟩ ++
        ⟨[⟨kind, ⟨start + m, start + m + n⟩, index.position (start + m), .none⟩], []⟩ := by
  have hinside : start < start + m ∧ start + m < start + (m + n) := by omega
  show mk _ _ = mk _ _
  rw [List.flatMap_singleton, Token.cut, if_pos ⟨hkind, hinside⟩, Nat.add_assoc start m n]
  rfl

theorem cutAt_of_outside (h : ∀ offset ∈ offsets, ∀ token ∈ e.tokens,
    offset ≤ token.span.start ∨ token.span.stop ≤ offset) : e.cutAt index offsets = e := by
  induction offsets with
  | nil => exact cutAt_nil index e
  | cons offset offsets ih =>
    rw [List.forall_mem_cons] at h
    rw [cutAt_cons, cut_of_outside h.1, ih h.2]

end Emission

namespace Token

theorem kind_of_mem_cutAt {index : LineIndex} {offsets : List Nat} {token part : Token}
    (h : part ∈ token.cutAt index offsets) : part.kind = token.kind := by
  induction offsets generalizing token with
  | nil => rw [List.mem_singleton.mp h]
  | cons offset offsets ih =>
    obtain ⟨half, hhalf, hpart⟩ := List.mem_flatMap.mp h
    rw [ih hpart]
    unfold cut at hhalf
    split at hhalf
    · rcases List.mem_cons.mp hhalf with rfl | hhalf
      · rfl
      · rw [List.mem_singleton.mp hhalf]
    · rw [List.mem_singleton.mp hhalf]

theorem cutAt_of_significant (index : LineIndex) (offsets : List Nat) {token : Token}
    (h : token.isTrivia = false) : token.cutAt index offsets = [token] := by
  induction offsets with
  | nil => rfl
  | cons offset offsets ih =>
    have hcut : token.cut index offset = [token] := by
      apply if_neg
      rw [h]
      simp
    rw [cutAt, hcut, List.flatMap_singleton, ih]

/-- Cutting leaves the tokens that are not trivia as they are, and cuts trivia into trivia. -/
theorem filter_flatMap_cutAt (index : LineIndex) (offsets : List Nat) (tokens : List Token) :
    (tokens.flatMap (cutAt index offsets)).filter (!·.isTrivia) =
        tokens.filter (!·.isTrivia) ∧
      (tokens.flatMap (cutAt index offsets)).filter (·.isTrivia) =
        (tokens.filter (·.isTrivia)).flatMap (cutAt index offsets) := by
  induction tokens with
  | nil => exact ⟨rfl, rfl⟩
  | cons token tokens ih =>
    rw [List.flatMap_cons, List.filter_append, List.filter_append, ih.1, ih.2]
    cases htoken : token.isTrivia with
    | false =>
      rw [cutAt_of_significant index offsets htoken]
      simp [htoken]
    | true =>
      have hparts : ∀ part ∈ token.cutAt index offsets, part.isTrivia = true := by
        intro part hpart
        rw [isTrivia, kind_of_mem_cutAt hpart]
        exact htoken
      have hnone : (token.cutAt index offsets).filter (!·.isTrivia) = [] := by
        refine List.filter_eq_nil_iff.mpr fun part hpart => ?_
        rw [hparts part hpart]
        simp
      rw [hnone, List.filter_eq_self.mpr hparts]
      simp [htoken]

end Token

/-! ## Cutting lexemes -/

/-- The consecutive lexemes `a` and `b` are `ls` with at most a piece of trivia cut in two. -/
inductive Lexeme.TriviaCut : (ls a b : List Lexeme) → Prop
  | apart (a b : List Lexeme) : TriviaCut (a ++ b) a b
  | inside (before after : List Lexeme) {l l' l'' : Lexeme} (htrivia : l.shape.isTrivia = true)
      (hl' : l'.shape = l.shape) (hl'' : l''.shape = l.shape)
      (hlength : l.length = l'.length + l''.length) :
      TriviaCut (before ++ l :: after) (before ++ [l']) (l'' :: after)

namespace Progress

variable {mode : Mode} {index : LineIndex}

theorem span_of_mem_emitPieces {start : Nat} {pieces : List Piece} {progress : Progress}
    {token : Token} (h : token ∈ (progress.emitPieces index start pieces).1.tokens) :
    start ≤ token.span.start ∧ token.span.stop ≤ start + Piece.totalLength pieces := by
  induction pieces generalizing start progress with
  | nil => cases h
  | cons piece pieces ih =>
    rw [emitPieces_cons] at h
    dsimp only at h
    rw [Piece.totalLength_cons]
    rcases List.mem_append.mp h with h | h
    · rw [List.mem_singleton.mp h]
      dsimp only
      omega
    · have := ih h
      omega

theorem span_of_mem_run {start : Nat} {ls behind : List Lexeme}
    (hls : ∀ l ∈ ls, l.InText ∧ 0 < l.length) {progress : Progress} {token : Token}
    (h : token ∈ (progress.run mode index (Occurrence.before behind start ls)).1.tokens) :
    start ≤ token.span.start ∧ token.span.stop ≤ start + Lexeme.totalLength ls := by
  induction ls generalizing start progress with
  | nil => cases h
  | cons l ls ih =>
    rw [List.forall_mem_cons] at hls
    rw [Occurrence.before, run_cons] at h
    dsimp only at h
    rw [Lexeme.totalLength_cons]
    rcases List.mem_append.mp h with h | h
    · have hspan := span_of_mem_emitPieces h
      rw [(Reading.length_pieces hls.1.1 hls.1.2 _ _ _).2] at hspan
      dsimp only at hspan
      omega
    · have := ih hls.2 h
      omega

theorem cut_run_start {ls : List Lexeme} (hls : ∀ l ∈ ls, l.InText ∧ 0 < l.length) (mode : Mode)
    (index : LineIndex) (progress : Progress) (start : Nat) :
    (progress.run mode index (Occurrence.ofLexemes start ls)).1.cut index start =
      (progress.run mode index (Occurrence.ofLexemes start ls)).1 := by
  rw [← Occurrence.before_nil]
  exact Emission.cut_of_outside fun token htoken => .inl (span_of_mem_run hls htoken).1

theorem cutAt_run_of_le {start : Nat} {ls : List Lexeme}
    (hls : ∀ l ∈ ls, l.InText ∧ 0 < l.length) {offsets : List Nat}
    (h : ∀ p ∈ offsets, start + Lexeme.totalLength ls ≤ p) (mode : Mode) (index : LineIndex)
    (progress : Progress) (behind : List Lexeme) :
    (progress.run mode index (Occurrence.before behind start ls)).1.cutAt index offsets =
      (progress.run mode index (Occurrence.before behind start ls)).1 := by
  refine Emission.cutAt_of_outside fun p hp token htoken => .inr ?_
  exact Nat.le_trans (span_of_mem_run hls htoken).2 (h p hp)

end Progress

namespace Lexeme.TriviaCut

variable {index : LineIndex} {ls a b : List Lexeme}

/-- The occurrences of lexemes of which one is cut in two, before and behind the cut. -/
theorem ofLexemes_inside (start : Nat) (before after : List Lexeme) {l l' l'' : Lexeme}
    (htrivia : l.shape.isTrivia = true) (hl' : l'.shape = l.shape) (hl'' : l''.shape = l.shape)
    (hlength : l.length = l'.length + l''.length) :
    let ahead := after.filter (·.isSignificant)
    let front := Occurrence.before ahead start before
    let middle := start + Lexeme.totalLength before
    let back := Occurrence.before [] (middle + l.length) after
    Occurrence.ofLexemes start (before ++ l :: after) = front ++ ⟨l, middle, ahead⟩ :: back ∧
      Occurrence.ofLexemes start (before ++ [l'] ++ l'' :: after) =
        front ++ ⟨l', middle, ahead⟩ :: ⟨l'', middle + l'.length, ahead⟩ :: back := by
  intro ahead front middle back
  rw [← hl'] at htrivia
  have hskip : (l'' :: after).filter (·.isSignificant) = ahead := by
    rw [filter_isSignificant_cons, isTrivia, hl'', ← hl', if_pos htrivia]
  constructor
  · rw [← Occurrence.before_nil, Occurrence.before_append_trivia (hl' ▸ htrivia), List.append_nil]
  · rw [← Occurrence.before_nil, List.append_assoc, List.singleton_append,
      Occurrence.before_append_trivia htrivia, hskip, List.append_nil, Occurrence.before,
      List.append_nil, Nat.add_assoc _ l'.length, ← hlength]

/-- Cutting trivia in two cuts its token and changes nothing else. -/
theorem run_eq (h : TriviaCut ls a b) (hls : ∀ l ∈ a ++ b, l.InText ∧ 0 < l.length)
    (mode : Mode) (index : LineIndex) (progress : Progress) (start : Nat) :
    progress.run mode index (Occurrence.ofLexemes start (a ++ b)) =
      ((progress.run mode index (Occurrence.ofLexemes start ls)).1.cut index
          (start + Lexeme.totalLength a),
        (progress.run mode index (Occurrence.ofLexemes start ls)).2) := by
  rw [List.forall_mem_append] at hls
  cases h with
  | apart =>
    rw [Occurrence.ofLexemes_append, Progress.run_append, Emission.cut_append,
      Progress.cut_run_start hls.2, Emission.cut_of_outside]
    intro token htoken
    exact .inr (Progress.span_of_mem_run hls.1 htoken).2
  | @inside before after l l' l'' htrivia hl' hl'' hlength =>
    rw [List.forall_mem_append, List.forall_mem_singleton, List.forall_mem_cons] at hls
    obtain ⟨⟨hbefore, hpos'⟩, hpos'', hafter⟩ := hls
    obtain ⟨kind, hkind⟩ := Shape.exists_kinds_of_isTrivia htrivia
    have hkindTrivia := Shape.isTrivia_of_mem_kinds htrivia (hkind ▸ List.mem_singleton_self kind)
    have hrun : ∀ {x : Lexeme}, x.shape = l.shape → ∀ progress start ahead os,
        Progress.run mode index progress (⟨x, start, ahead⟩ :: os) =
          (⟨[⟨kind, ⟨start, start + x.length⟩, index.position start, .none⟩], []⟩ ++
              (progress.run mode index os).1,
            (progress.run mode index os).2) := by
      intro x hx progress start ahead os
      exact Progress.run_cons_of_isTrivia mode index progress (hx ▸ htrivia) (hx ▸ hkind) start
        ahead os
    let middle := start + Lexeme.totalLength before
    have hmiddle : start + Lexeme.totalLength (before ++ [l']) = middle + l'.length := by
      rw [Lexeme.totalLength_append, Lexeme.totalLength_singleton, Nat.add_assoc]
    obtain ⟨hwhole, hparts⟩ := ofLexemes_inside start before after htrivia hl' hl'' hlength
    rw [hwhole, hparts, Progress.run_append, Progress.run_append, hrun hl', hrun hl'', hrun rfl,
      hmiddle]
    dsimp only
    rw [Emission.cut_append, Emission.cut_append, hlength,
      Emission.cut_of_isTrivia index hkindTrivia hpos'.2 hpos''.2, Emission.append_assoc,
      Emission.cut_of_outside, Emission.cut_of_outside]
    · intro token htoken
      have := Progress.span_of_mem_run hafter htoken
      omega
    · intro token htoken
      have := Progress.span_of_mem_run hbefore htoken
      omega

/-- What a run emits, cut at the start of its lexemes, where they are cut in two, and at offsets
behind that: it is what the lexemes in front of the cut emit and, cut at the same offsets, what
those behind it emit. -/
theorem cutAt_run (h : TriviaCut ls a b) (hls : ∀ l ∈ ls, l.InText ∧ 0 < l.length)
    (hab : ∀ l ∈ a ++ b, l.InText ∧ 0 < l.length) (mode : Mode) (index : LineIndex)
    (progress : Progress) {start q : Nat} (hq : start + Lexeme.totalLength a = q)
    {qs : List Nat} (hqs : ∀ p ∈ qs, q ≤ p) :
    let whole := progress.run mode index (Occurrence.ofLexemes start ls)
    let first := progress.run mode index
      (Occurrence.before (b.filter (·.isSignificant)) start a)
    let others := first.2.run mode index (Occurrence.ofLexemes q b)
    whole.1.cutAt index (start :: q :: qs) = first.1 ++ others.1.cutAt index (q :: qs) ∧
      whole.2 = others.2 := by
  intro whole first others
  have hrun := h.run_eq hab mode index progress start
  rw [Occurrence.ofLexemes_append, hq, Progress.run_append] at hrun
  obtain ⟨hcut, hend⟩ := Prod.mk.inj hrun
  rw [List.forall_mem_append] at hab
  have hfirst : first.1.cutAt index qs = first.1 :=
    Progress.cutAt_run_of_le hab.1 (by rw [hq]; exact hqs) _ _ _ _
  have hothers : others.1.cut index q = others.1 := Progress.cut_run_start hab.2 _ _ _ _
  have hwhole : whole.1.cut index start = whole.1 := Progress.cut_run_start hls _ _ _ _
  refine ⟨?_, hend.symm⟩
  calc whole.1.cutAt index (start :: q :: qs)
      = (whole.1.cut index q).cutAt index qs := by
        rw [Emission.cutAt_cons, hwhole, Emission.cutAt_cons]
    _ = (first.1 ++ others.1).cutAt index qs := by rw [← hcut]
    _ = first.1 ++ others.1.cutAt index (q :: qs) := by
        rw [Emission.cutAt_append, Emission.cutAt_cons, hothers, hfirst]

theorem significant_eq (h : TriviaCut ls a b) (start : Nat) :
    (Occurrence.ofLexemes start (a ++ b)).filter (·.lexeme.isSignificant) =
      (Occurrence.ofLexemes start ls).filter (·.lexeme.isSignificant) := by
  cases h with
  | apart => rfl
  | @inside before after l l' l'' htrivia hl' hl'' hlength =>
    have hskip : ∀ {x : Lexeme}, x.shape = l.shape → ∀ start ahead (os : List Occurrence),
        (⟨x, start, ahead⟩ :: os).filter (·.lexeme.isSignificant) =
          os.filter (·.lexeme.isSignificant) := by
      intro x hx start ahead os
      apply List.filter_cons_of_neg
      dsimp only
      rw [isSignificant, hx, htrivia]
      exact Bool.false_ne_true
    obtain ⟨hwhole, hparts⟩ := ofLexemes_inside start before after htrivia hl' hl'' hlength
    rw [hwhole, hparts, List.filter_append, List.filter_append, hskip hl', hskip hl'', hskip rfl]

end Lexeme.TriviaCut

namespace Line

variable {carry : Option Construct} {u v : List Char}

/-- **Lexemes cut at the end of a line.** Where all of them have their ends and no text block
reaches over the end of the line, they are cut into those of the line and those of what follows,
and at most a piece of trivia is cut in two. -/
theorem triviaCut_resume (hu : EndsLine u) (hne : u ≠ [])
    (hclosed : ∀ l ∈ resume carry (u ++ v), l.shape.isOpen = false)
    (hblock : carryBehind carry u ≠ some .textBlock) :
    Lexeme.TriviaCut (resume carry (u ++ v)) (closed carry u) (resume (carryBehind carry u) v) ∧
      ∀ l ∈ resume (carryBehind carry u) v, l.shape.isOpen = false := by
  cases junction carry (hu.lineBorder v) hne with
  | apart hcarry h =>
    rw [h, List.forall_mem_append] at hclosed
    rw [h, hcarry, closed_eq_resume hclosed.1]
    exact ⟨.apart _ _, hclosed.2⟩
  | blank before x y after hcarry hresume hv h =>
    obtain ⟨-, -, hlength⟩ := byteSize_of_cut hresume h
    rw [h, List.forall_mem_append, List.forall_mem_cons] at hclosed
    have hline : ∀ l ∈ resume carry u, l.shape.isOpen = false := by
      rw [hresume]
      exact List.forall_mem_append.mpr ⟨hclosed.1, List.forall_mem_singleton.mpr rfl⟩
    rw [h, hcarry, hv, closed_eq_resume hline, hresume]
    exact ⟨.inside before after rfl rfl rfl hlength, List.forall_mem_cons.mpr ⟨rfl, hclosed.2.2⟩⟩
  | construct construct before x hcarry hx hresume h =>
    rw [hcarry] at hblock
    obtain ⟨-, -, hlength⟩ := byteSize_of_cut hresume h
    rw [h, List.forall_mem_append, List.forall_mem_cons] at hclosed
    have hshape := Construct.shapeIn_eq_closedShape hclosed.2.1
    obtain ⟨htrivia, -⟩ := Construct.kinds_closedShape fun heq => hblock (congrArg some heq)
    have hv : v ≠ [] := by
      rintro rfl
      have hopen := hclosed.2.1
      cases construct <;> cases hopen
    have hlength' : (⟨construct.shapeIn v, carriedPart (some construct) v⟩ : Lexeme).length =
        Text.byteSize (carriedPart (some construct) v) := if_neg (Lexeme.shapeIn_ne _ _).1
    have hlength'' : (⟨construct.closedShape, x⟩ : Lexeme).length = Text.byteSize x := by
      cases construct <;> rfl
    rw [h, hcarry, closed_of_carryBehind hcarry hresume hclosed.1, resume_some hv]
    refine ⟨.inside before _ ?_ ?_ rfl ?_, List.forall_mem_cons.mpr hclosed.2⟩
    · rw [hshape]
      exact htrivia
    · exact hshape.symm
    · rw [hlength, hlength', hlength'']

end Line

end JavaHighlight
