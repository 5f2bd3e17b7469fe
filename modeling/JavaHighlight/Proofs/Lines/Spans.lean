import JavaHighlight.Proofs.Lines.Carry

/-!
# Spans cut at the starts of lines

The spans of the lexemes of a text, cut at the starts of its lines, are the spans of the lexemes
of its lines, each resumed with what is open in front of it (`Line.spans_resume_cutAt`).
-/

namespace JavaHighlight

open Text (EndsLine Lined)

namespace Span

/-- The parts of a span on both sides of an offset; the span itself if the offset is not inside. -/
def cut (offset : Nat) (span : Span) : List Span :=
  if span.start < offset ∧ offset < span.stop then [⟨span.start, offset⟩, ⟨offset, span.stop⟩]
  else [span]

/-- The parts of a span between offsets. -/
def cutAt : List Nat → Span → List Span
  | [], span => [span]
  | offset :: offsets, span => (span.cut offset).flatMap (cutAt offsets)

theorem flatMap_cutAt_nil (spans : List Span) : spans.flatMap (cutAt []) = spans :=
  List.flatMap_singleton' spans

theorem flatMap_cutAt_cons (offset : Nat) (offsets : List Nat) (spans : List Span) :
    spans.flatMap (cutAt (offset :: offsets)) =
      (spans.flatMap (cut offset)).flatMap (cutAt offsets) :=
  List.flatMap_assoc.symm

theorem flatMap_cut_of_outside {offset : Nat} {spans : List Span}
    (h : ∀ span ∈ spans, offset ≤ span.start ∨ span.stop ≤ offset) :
    spans.flatMap (cut offset) = spans := by
  induction spans with
  | nil => rfl
  | cons span spans ih =>
    rw [List.forall_mem_cons] at h
    rw [List.flatMap_cons, ih h.2, cut, if_neg (by omega)]
    rfl

theorem flatMap_cutAt_of_outside {offsets : List Nat} {spans : List Span}
    (h : ∀ offset ∈ offsets, ∀ span ∈ spans, offset ≤ span.start ∨ span.stop ≤ offset) :
    spans.flatMap (cutAt offsets) = spans := by
  induction offsets with
  | nil => exact flatMap_cutAt_nil spans
  | cons offset offsets ih =>
    rw [List.forall_mem_cons] at h
    rw [flatMap_cutAt_cons, flatMap_cut_of_outside h.1, ih h.2]

end Span

namespace Occurrence

def span (o : Occurrence) : Span :=
  ⟨o.start, o.stop⟩

end Occurrence

namespace Lexeme

/-- The spans of consecutive lexemes, the first of which starts at `start`. -/
def spans (start : Nat) (ls : List Lexeme) : List Span :=
  (Occurrence.ofLexemes start ls).map Occurrence.span

theorem spans_cons (start : Nat) (l : Lexeme) (ls : List Lexeme) :
    spans start (l :: ls) = ⟨start, start + l.length⟩ :: spans (start + l.length) ls := rfl

theorem spans_append (start : Nat) (a b : List Lexeme) :
    spans start (a ++ b) = spans start a ++ spans (start + Lexeme.totalLength a) b := by
  induction a generalizing start with
  | nil => rfl
  | cons l a ih =>
    rw [List.cons_append, spans_cons, spans_cons, ih, Lexeme.totalLength_cons, Nat.add_assoc,
      List.cons_append]

theorem le_of_mem_spans {start : Nat} {ls : List Lexeme} {span : Span} (h : span ∈ spans start ls) :
    start ≤ span.start ∧ span.stop ≤ start + Lexeme.totalLength ls := by
  induction ls generalizing start with
  | nil => cases h
  | cons l ls ih =>
    rw [Lexeme.totalLength_cons]
    rw [spans_cons, List.mem_cons] at h
    rcases h with rfl | h
    · exact ⟨Nat.le_refl _, by dsimp only; omega⟩
    · have := ih h
      omega

theorem start_lt_stop_of_mem_spans {start : Nat} {ls : List Lexeme} (hls : ∀ l ∈ ls, 0 < l.length)
    {span : Span} (h : span ∈ spans start ls) : span.start < span.stop := by
  induction ls generalizing start with
  | nil => cases h
  | cons l ls ih =>
    rw [List.forall_mem_cons] at hls
    rw [spans_cons, List.mem_cons] at h
    rcases h with rfl | h
    · exact Nat.lt_add_of_pos_right hls.1
    · exact ih hls.2 h

theorem spans_append_cut (start : Nat) (a b : List Lexeme) :
    (spans start (a ++ b)).flatMap (Span.cut (start + Lexeme.totalLength a)) =
      spans start (a ++ b) := by
  apply Span.flatMap_cut_of_outside
  intro span hspan
  rw [spans_append, List.mem_append] at hspan
  rcases hspan with hspan | hspan
  · exact .inr (le_of_mem_spans hspan).2
  · exact .inl (le_of_mem_spans hspan).1

theorem spans_append_cons_cut (start : Nat) (before after : List Lexeme) {l l' l'' : Lexeme}
    (hl : l.length = l'.length + l''.length) (hl' : 0 < l'.length) (hl'' : 0 < l''.length) :
    (spans start (before ++ l :: after)).flatMap
        (Span.cut (start + Lexeme.totalLength (before ++ [l']))) =
      spans start ((before ++ [l']) ++ l'' :: after) := by
  have hsum : Lexeme.totalLength (before ++ [l']) = Lexeme.totalLength before + l'.length := by
    rw [Lexeme.totalLength_append, Lexeme.totalLength_singleton]
  have hbefore : (spans start before).flatMap
      (Span.cut (start + (Lexeme.totalLength before + l'.length))) = spans start before :=
    Span.flatMap_cut_of_outside fun span hspan => .inr (by have := le_of_mem_spans hspan; omega)
  have hafter : (spans (start + Lexeme.totalLength before + l.length) after).flatMap
      (Span.cut (start + (Lexeme.totalLength before + l'.length))) =
        spans (start + Lexeme.totalLength before + l.length) after :=
    Span.flatMap_cut_of_outside fun span hspan => .inl (by have := le_of_mem_spans hspan; omega)
  rw [hsum, spans_append, spans_cons, List.flatMap_append, List.flatMap_cons, hbefore, hafter,
    List.append_assoc, spans_append, List.singleton_append, spans_cons, spans_cons, Span.cut,
    if_pos (by dsimp only; omega), hl]
  simp only [Nat.add_assoc]
  rfl

end Lexeme

namespace Line

/-- Cutting a text at the end of a line cuts its lexemes into those of the line and those of what
follows, resumed with what is open there. -/
theorem spans_resume_cut (carry : Option Construct) {u : List Char} (hu : EndsLine u)
    (hne : u ≠ []) (v : List Char) (start : Nat) :
    (Lexeme.spans start (resume carry (u ++ v))).flatMap
        (Span.cut (start + Text.byteSize u)) =
      Lexeme.spans start (resume carry u ++ resume (carryBehind carry u) v) := by
  rw [← totalLength_resume carry u]
  cases junction carry (hu.lineBorder v) hne with
  | apart hcarry h => rw [h, hcarry, Lexeme.spans_append_cut]
  | blank before x y after hcarry hresume hv h =>
    obtain ⟨hx, -, hlength⟩ := byteSize_of_cut hresume h
    have hy : y ≠ [] := (length_of_mem_resume (hv ▸ List.mem_cons_self)).2
    have hxpos := Text.byteSize_pos hx
    have hypos := Text.byteSize_pos hy
    rw [h, hresume, hcarry, hv]
    exact Lexeme.spans_append_cons_cut start before after hlength hxpos hypos
  | construct construct before x hcarry hx' hresume h =>
    obtain ⟨hx, -, hlength⟩ := byteSize_of_cut hresume h
    have hopen : (⟨construct.openShape, x⟩ : Lexeme).length = Text.byteSize x :=
      (length_of_mem_resume (hresume ▸ List.mem_concat_self)).1
    have hxpos := Text.byteSize_pos hx
    by_cases hv : v = []
    · subst hv
      have hall : Lexeme.spans start (resume carry u) =
          Lexeme.spans start (resume carry u ++ resume (carryBehind carry u) []) := by
        rw [resume_nil, List.append_nil]
      rw [← hall, List.append_nil]
      have hcut := Lexeme.spans_append_cut start (resume carry u) []
      rw [List.append_nil] at hcut
      exact hcut
    · have hpart := carriedPart_ne_nil hv construct
      have hpartpos := Text.byteSize_pos hpart
      have hlength' : (⟨construct.shapeIn v, carriedPart (some construct) v⟩ : Lexeme).length =
          Text.byteSize (carriedPart (some construct) v) := if_neg ((Lexeme.shapeIn_ne _ _).1)
      rw [h, hresume, hcarry, resume_some hv]
      exact Lexeme.spans_append_cons_cut start before _ (by rw [hlength, hopen, hlength'])
        (by rw [hopen]; exact hxpos) (by rw [hlength']; exact hpartpos)

/-- The spans of the lexemes of consecutive lines, each resumed with what is open in front of it. -/
def spansOfLines (start : Nat) (carry : Option Construct) : List (List Char) → List Span
  | [] => []
  | l :: ls =>
    Lexeme.spans start (resume carry l) ++
      spansOfLines (start + Text.byteSize l) (carryBehind carry l) ls

theorem le_of_mem_spans_resume {start : Nat} {carry : Option Construct} {cs : List Char}
    {span : Span} (h : span ∈ Lexeme.spans start (resume carry cs)) :
    start ≤ span.start ∧ span.stop ≤ start + Text.byteSize cs := by
  have hle := Lexeme.le_of_mem_spans h
  rw [totalLength_resume] at hle
  exact hle

theorem start_lt_stop_of_mem_spans_resume {start : Nat} {carry : Option Construct}
    {cs : List Char} {span : Span} (h : span ∈ Lexeme.spans start (resume carry cs)) :
    span.start < span.stop := by
  refine Lexeme.start_lt_stop_of_mem_spans (fun l hl => ?_) h
  obtain ⟨hlength, hne⟩ := length_of_mem_resume hl
  rw [hlength]
  exact Text.byteSize_pos hne

theorem startsFrom_eq_cons (start : Nat) {ls : List (List Char)} (hne : ls ≠ []) :
    ∃ starts, Text.startsFrom start ls = start :: starts ∧ ∀ p ∈ starts, start ≤ p := by
  obtain ⟨l, ls, rfl⟩ := List.exists_cons_of_ne_nil hne
  refine ⟨_, rfl, fun p hp => ?_⟩
  have := (Text.le_of_mem_startsFrom hp).1
  omega

/-- **Lexemes cut at the starts of lines** are the lexemes of the lines. -/
theorem spans_resume_cutAt {ls : List (List Char)} (h : Lined ls) (carry : Option Construct)
    (start : Nat) :
    (Lexeme.spans start (resume carry ls.flatten)).flatMap
        (Span.cutAt (Text.startsFrom start ls)) = spansOfLines start carry ls := by
  -- An offset that all spans follow cuts none of them.
  have hfirst : ∀ (cs : List Char) (carry : Option Construct) (start : Nat) (starts : List Nat),
      (Lexeme.spans start (resume carry cs)).flatMap (Span.cutAt (start :: starts)) =
        (Lexeme.spans start (resume carry cs)).flatMap (Span.cutAt starts) := by
    intro cs carry start starts
    rw [Span.flatMap_cutAt_cons, Span.flatMap_cut_of_outside]
    exact fun span hspan => .inl (le_of_mem_spans_resume hspan).1
  induction h generalizing carry start with
  | @last l h =>
    rw [Text.startsFrom, Text.startsFrom, hfirst, Span.flatMap_cutAt_nil, spansOfLines,
      spansOfLines, List.append_nil, List.flatten_singleton]
  | @cons l ls hl hls ih =>
    obtain ⟨starts, hstarts, hle⟩ := startsFrom_eq_cons (start + Text.byteSize l) hls.ne_nil
    have hline : (Lexeme.spans start (resume carry l)).flatMap (Span.cutAt starts) =
        Lexeme.spans start (resume carry l) := by
      refine Span.flatMap_cutAt_of_outside fun p hp span hspan => .inr ?_
      exact Nat.le_trans (le_of_mem_spans_resume hspan).2 (hle p hp)
    rw [Text.startsFrom, hfirst, hstarts, Span.flatMap_cutAt_cons, List.flatten_cons,
      spans_resume_cut carry hl.endsLine hl.ne_nil, Lexeme.spans_append, List.flatMap_append, hline,
      totalLength_resume, spansOfLines, ← ih, hstarts, hfirst]

end Line

end JavaHighlight
