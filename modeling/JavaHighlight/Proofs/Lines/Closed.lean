import JavaHighlight.Proofs.Lines.Cut
import JavaHighlight.Proofs.Lines.InStep

/-!
# Lines as parts of their source

`Line.closed` lists the lexemes of a line as they are read in the source, where a comment that
the line leaves open has its end. A line that is tokenized by itself emits what these lexemes
emit in the source, if a semicolon or a brace ends the line or no lexeme follows
(`Line.tokenizeLine_inStep`).
-/

namespace JavaHighlight

/-! ## Lexemes with their ends -/

/-- A lexeme with its end, in place of one that lacks it. -/
def Lexeme.close (l : Lexeme) : Lexeme :=
  match Construct.ofLexeme? l with
  | none => l
  | some construct => ⟨construct.closedShape, l.text⟩

theorem Lexeme.close_of_closed {l : Lexeme} (h : l.shape.isOpen = false) : l.close = l := by
  rw [close, Construct.ofLexeme?_eq_none_iff.mpr h]

theorem Lexeme.map_close {ls : List Lexeme} (h : ∀ l ∈ ls, l.shape.isOpen = false) :
    ls.map close = ls := by
  induction ls with
  | nil => rfl
  | cons l ls ih =>
    rw [List.forall_mem_cons] at h
    rw [List.map_cons, close_of_closed h.1, ih h.2]

theorem Lexeme.map_close_concat {ls : List Lexeme} (h : ∀ l ∈ ls, l.shape.isOpen = false)
    {l : Lexeme} {construct : Construct} (hl : Construct.ofLexeme? l = some construct) :
    (ls ++ [l]).map close = ls ++ [⟨construct.closedShape, l.text⟩] := by
  rw [List.map_append, map_close h, List.map_singleton, close, hl]

theorem Lexeme.length_close (l : Lexeme) : l.close.length = l.length := by
  unfold close
  split
  · rfl
  · next construct h =>
    have hshape : l.shape ≠ .stray := by
      intro hstray
      rw [Construct.ofLexeme?, hstray] at h
      cases h
    rw [length, length, if_neg hshape]
    cases construct <;> rfl

theorem Lexeme.totalLength_map_close (ls : List Lexeme) :
    totalLength (ls.map close) = totalLength ls := by
  induction ls with
  | nil => rfl
  | cons l ls ih => rw [List.map_cons, totalLength_cons, totalLength_cons, length_close, ih]

theorem Construct.inText_closedShape (construct : Construct) (text : List Char) :
    Lexeme.InText ⟨construct.closedShape, text⟩ := by
  cases construct <;> exact ⟨by simp [closedShape], fun h => absurd rfl h⟩

theorem Lexeme.inText_close {l : Lexeme} (h : l.InText) : l.close.InText := by
  unfold close
  split
  · exact h
  · exact Construct.inText_closedShape _ _

theorem Construct.kinds_closedShape {construct : Construct} (h : construct ≠ .textBlock) :
    construct.closedShape.isTrivia = true ∧ construct.closedShape.kinds = [construct.kind] := by
  cases construct with
  | textBlock => exact absurd rfl h
  | _ => exact ⟨rfl, rfl⟩

theorem Construct.isTrivia_kind {construct : Construct} (h : construct ≠ .textBlock) :
    construct.kind.isTrivia = true := by
  obtain ⟨htrivia, hkinds⟩ := kinds_closedShape h
  exact Shape.isTrivia_of_mem_kinds htrivia (hkinds ▸ List.mem_singleton_self _)

theorem Reading.ofLexeme_of_isTrivia {l : Lexeme} (h : l.isTrivia = true) {kind : TokenKind}
    (hkind : l.shape.kinds = [kind]) (mode : Mode) (ctx : Context) (ahead : List Lexeme) :
    kind.isTrivia = true ∧ ofLexeme mode ctx l ahead = plain l kind := by
  refine ⟨Shape.isTrivia_of_mem_kinds h (hkind ▸ List.mem_singleton_self kind), ?_⟩
  unfold Lexeme.isTrivia at h
  unfold ofLexeme
  cases hl : l.shape with
  | blank | lineComment | blockComment | javadocComment | nativeBlock =>
    rw [hl] at hkind
    rw [← List.singleton_inj.mp hkind]
  | _ =>
    rw [hl] at h
    cases h

/-- What a line leaves open of a comment is read as trivia of the kind of the comment. -/
theorem Construct.ofLexeme_line {construct : Construct} {l : Lexeme}
    (h : ofLexeme? l = some construct) (hne : construct ≠ .textBlock) (ctx : Context)
    (ahead : List Lexeme) :
    Reading.ofLexeme .line ctx l ahead = Reading.plain l construct.kind := by
  have hkind : Reading.openCommentKind l = construct.kind := by
    have hshape := shape_of_ofLexeme? h
    unfold ofLexeme? at h
    rw [hshape] at h
    cases construct with
    | textBlock => exact absurd rfl hne
    | nativeBlock =>
      unfold Reading.openCommentKind
      rw [hshape]
      rfl
    | javadoc =>
      dsimp only [openShape] at h
      split_ifs at h with hjavadoc
      · exact hjavadoc
      · cases h
    | blockComment =>
      have hmem := Reading.openCommentKind_mem (.inl hshape)
      rw [hshape] at hmem
      dsimp only [openShape] at h
      split_ifs at h with hjavadoc
      · cases h
      · exact (List.mem_cons.mp hmem).resolve_right fun hlast =>
          hjavadoc (List.mem_singleton.mp hlast)
  unfold Reading.ofLexeme
  rw [shape_of_ofLexeme? h]
  rw [← hkind]
  cases construct with
  | textBlock => exact absurd rfl hne
  | _ => rfl

/-- A comment that a line leaves open is read as it is with its end. -/
theorem Lexeme.close_of_isOpen {l : Lexeme} (h : l.shape.isOpen = true)
    (hblock : l.shape ≠ .unterminatedTextBlock) :
    l.close.isTrivia = true ∧
      ∀ ctx a b, Reading.ofLexeme .line ctx l a = Reading.ofLexeme .whole ctx l.close b := by
  cases hconstruct : Construct.ofLexeme? l with
  | none =>
    rw [Construct.ofLexeme?_eq_none_iff.mp hconstruct] at h
    cases h
  | some construct =>
    have hne : construct ≠ .textBlock := by
      rintro rfl
      exact hblock (Construct.shape_of_ofLexeme? hconstruct)
    have hclose : l.close = ⟨construct.closedShape, l.text⟩ := by rw [close, hconstruct]
    obtain ⟨htrivia, hkinds⟩ := Construct.kinds_closedShape hne
    rw [← show l.close.shape = construct.closedShape by rw [hclose]] at htrivia hkinds
    refine ⟨htrivia, fun ctx a b => ?_⟩
    rw [Construct.ofLexeme_line hconstruct hne,
      (Reading.ofLexeme_of_isTrivia htrivia hkinds .whole ctx b).2]
    rw [Reading.plain, Reading.plain, Piece.ofLexeme, Piece.ofLexeme, l.length_close, hclose]

namespace Progress

theorem emit_of_plain {mode : Mode} {progress : Progress} {l : Lexeme} {ahead : List Lexeme}
    {kind : TokenKind} (htrivia : kind.isTrivia = true)
    (hreading : Reading.ofLexeme mode progress.context l ahead = .plain l kind)
    (index : LineIndex) (start : Nat) :
    progress.emit mode index ⟨l, start, ahead⟩ =
      (⟨[⟨kind, ⟨start, start + l.length⟩, index.position start, .none⟩], []⟩, progress) := by
  have key : ∀ kind ∈ TokenKind.all, kind.isTrivia = true → Context.closes? kind = none := by
    decide
  have hissue : progress.context.issue? kind = none := by
    rw [Context.issue?, key kind kind.mem_all htrivia]
  have hpiece : progress.emitPiece index start (.ofLexeme l kind) =
      (⟨[⟨kind, ⟨start, start + l.length⟩, index.position start, .none⟩], []⟩, progress) := by
    unfold emitPiece
    dsimp only [Piece.ofLexeme]
    rw [hissue, htrivia, Context.observe_of_isTrivia htrivia]
    rfl
  unfold emit
  dsimp only
  rw [hreading]
  show (Emission.empty ++ (progress.emitPieces index start [.ofLexeme l kind]).1,
    (progress.emitPieces index start [.ofLexeme l kind]).2) = _
  rw [emitPieces_cons, hpiece]
  rfl

theorem emit_of_isTrivia (mode : Mode) (index : LineIndex) (progress : Progress) {l : Lexeme}
    (h : l.shape.isTrivia = true) {kind : TokenKind} (hkind : l.shape.kinds = [kind])
    (start : Nat) (ahead : List Lexeme) :
    progress.emit mode index ⟨l, start, ahead⟩ =
      (⟨[⟨kind, ⟨start, start + l.length⟩, index.position start, .none⟩], []⟩, progress) :=
  have ⟨htrivia, hreading⟩ := Reading.ofLexeme_of_isTrivia h hkind mode progress.context ahead
  emit_of_plain htrivia hreading index start

theorem run_cons_of_isTrivia (mode : Mode) (index : LineIndex) (progress : Progress) {l : Lexeme}
    (h : l.shape.isTrivia = true) {kind : TokenKind} (hkind : l.shape.kinds = [kind])
    (start : Nat) (ahead : List Lexeme) (os : List Occurrence) :
    progress.run mode index (⟨l, start, ahead⟩ :: os) =
      (⟨[⟨kind, ⟨start, start + l.length⟩, index.position start, .none⟩], []⟩ ++
          (progress.run mode index os).1,
        (progress.run mode index os).2) := by
  rw [run_cons, emit_of_isTrivia mode index progress h hkind]

variable {iw il : LineIndex} {start number size : Nat} {whole line : Progress}

/-- Lexemes of which the last one may be an open comment are read in step with the same lexemes
in the source, where the comment has its end. -/
theorem run_close_inStep (hcovers : iw.Covers il start number size)
    (h : InStep number whole line) {front last behind : List Lexeme}
    (hclosed : ∀ l ∈ front, l.shape.isOpen = false)
    (hlast : last = [] ∨ ∃ l, last = [l] ∧ l.shape.isOpen = true ∧
      l.shape ≠ .unterminatedTextBlock)
    (hls : ∀ l ∈ front ++ last, l.InText ∧ 0 < l.length)
    (hend : (behind = [] ∧ last = []) ∨
      ∀ l ∈ (front.filter (·.isSignificant)).getLast?, Lookahead.stopsLambda l = true)
    (hsize : Lexeme.totalLength (front ++ last) ≤ size) :
    (whole.run .whole iw (Occurrence.before behind start (front ++ last.map Lexeme.close))).1 =
        (line.run .line il (Occurrence.ofLexemes 0 (front ++ last))).1.lift start number ∧
      InStep number
        (whole.run .whole iw (Occurrence.before behind start (front ++ last.map Lexeme.close))).2
        (line.run .line il (Occurrence.ofLexemes 0 (front ++ last))).2 := by
  rw [Lexeme.totalLength_append] at hsize
  rw [List.forall_mem_append] at hls
  rw [← Occurrence.before_nil]
  rcases hlast with rfl | ⟨l, rfl, hopen, hblock⟩
  · rw [List.map_nil, List.append_nil]
    exact run_inStep hcovers h hclosed hls.1 (hend.imp_left And.left) (o := 0) (by omega)
  · obtain ⟨htrivia, hreading⟩ := Lexeme.close_of_isOpen hopen hblock
    rcases hend with ⟨-, hnil⟩ | hend
    · cases hnil
    rw [List.forall_mem_singleton] at hls
    rw [Lexeme.totalLength_singleton] at hsize
    obtain ⟨hfront, hnext⟩ := run_inStep hcovers h hclosed hls.1 (a := behind)
      (b := [l].filter (·.isSignificant) ++ []) (.inr hend) (o := 0) (by omega)
    have hstop : 0 + Lexeme.totalLength front + l.length ≤ size := by omega
    obtain ⟨hfinal, hall⟩ := emit_inStep hcovers hnext
      (p := ⟨l.close, start + 0 + Lexeme.totalLength front, behind⟩)
      (o := ⟨l, 0 + Lexeme.totalLength front, []⟩) (Nat.add_assoc _ _ _) l.length_close
      (hreading _ _ _) hls.2.1 hls.2.2 hstop
    have hbehind : [l.close].filter (·.isSignificant) ++ behind = behind := by
      rw [List.filter_cons, Lexeme.isSignificant]
      rw [Lexeme.isTrivia] at htrivia
      rw [htrivia]
      rfl
    rw [List.map_singleton, Occurrence.before_append, Occurrence.before_append, hbehind,
      run_append, run_append]
    rw [Nat.add_zero] at hfront hnext hfinal hall
    refine ⟨?_, hall⟩
    dsimp only
    rw [Emission.lift_append, hfront]
    simp only [Occurrence.before, run_cons, run, Emission.append_empty, List.filter_nil,
      List.nil_append]
    rw [hfinal]

end Progress

/-! ## Lines with their ends -/

theorem Construct.shapeIn_eq_closedShape {construct : Construct} {cs : List Char}
    (h : (construct.shapeIn cs).isOpen = false) :
    construct.shapeIn cs = construct.closedShape := by
  unfold Construct.shapeIn at h ⊢
  split
  · next hend =>
    rw [if_pos hend, construct.isOpen_openShape] at h
    cases h
  · rfl

namespace Line

/-- The lexeme that goes on with what is open in front of a text, as if it had its end there. -/
def carriedClosed (carry : Option Construct) (cs : List Char) : List Lexeme :=
  match carry with
  | none => []
  | some construct => if cs = [] then [] else [⟨construct.closedShape, carriedPart carry cs⟩]

/-- The lexemes of a text in front of which something is open, as if all had their ends in it. -/
def closed (carry : Option Construct) (cs : List Char) : List Lexeme :=
  carriedClosed carry cs ++ (Lexeme.ofText (rest carry cs)).map Lexeme.close

theorem closed_some {cs : List Char} (hne : cs ≠ []) (construct : Construct) :
    closed (some construct) cs =
      ⟨construct.closedShape, carriedPart (some construct) cs⟩ ::
        (Lexeme.ofText (rest (some construct) cs)).map Lexeme.close := by
  rw [closed, carriedClosed, if_neg hne]
  rfl

variable {state : LineState} {cs : List Char}

theorem contextOfRest_eq (hcarry : state.carry ≠ some .textBlock) (cs : List Char) :
    contextOfRest state cs = state.context := by
  obtain ⟨carry, context⟩ := state
  cases carry with
  | none => rfl
  | some construct =>
    have hkind := Construct.isTrivia_kind fun h => hcarry (congrArg some h)
    show contextAfter construct _ context = context
    unfold contextAfter
    split
    · rfl
    · exact Context.observe_of_isTrivia hkind _ _ _

/-- A line that no text block reaches into is read like a text in which what goes on with a
comment is a comment. -/
theorem tokenizeLine_eq_run (hcarry : state.carry ≠ some .textBlock) {later : List (List Char)}
    (hline : Text.lines cs = cs :: later) :
    let run := Progress.run .line (LineIndex.ofText cs) ⟨state.context, 0⟩
      (Occurrence.ofLexemes 0
        (carriedClosed state.carry cs ++ Lexeme.ofText (rest state.carry cs)))
    let output := tokenizeLine (String.ofList cs) state
    Emission.mk output.tokens output.diagnostics = run.1 ∧
      output.state.context = run.2.context := by
  have hcontext := contextOfRest_eq hcarry cs
  obtain ⟨carry, context⟩ := state
  rw [tokenizeLine_eq, String.toList_ofList]
  unfold run
  rw [hcontext]
  dsimp only
  cases carry with
  | none => exact ⟨rfl, rfl⟩
  | some construct =>
    obtain ⟨htrivia, hkinds⟩ := Construct.kinds_closedShape fun h => hcarry (congrArg some h)
    unfold carriedClosed occurrences carriedTokens continuation
    dsimp only
    by_cases hcs : cs = []
    · subst hcs
      rw [if_pos rfl, carriedPart, rest, List.take_nil, List.drop_nil]
      exact ⟨rfl, rfl⟩
    · have hpos := Text.byteSize_pos (carriedPart_ne_nil hcs construct)
      have hline' : Text.lines cs = [] ++ cs :: later := hline
      have hposition : (LineIndex.ofText cs).position 0 = ⟨1, 1⟩ :=
        LineIndex.position_of_line hline' (Text.byteSize_pos hcs)
      have hlength : (⟨construct.closedShape, carriedPart (some construct) cs⟩ : Lexeme).length =
          Text.byteSize (carriedPart (some construct) cs) := by
        cases construct <;> rfl
      rw [if_neg hcs, if_neg (Nat.ne_of_gt hpos), List.singleton_append,
        List.singleton_append, Occurrence.ofLexemes,
        Progress.run_cons_of_isTrivia .line _ _ htrivia hkinds]
      dsimp only
      rw [hlength, hposition, Nat.zero_add]
      exact ⟨rfl, rfl⟩

theorem totalLength_carriedClosed (carry : Option Construct) (cs : List Char) :
    Lexeme.totalLength (carriedClosed carry cs) = Lexeme.totalLength (carriedLexeme carry cs) := by
  cases carry with
  | none => rfl
  | some construct =>
    have hlength : (⟨construct.closedShape, carriedPart (some construct) cs⟩ : Lexeme).length =
        (⟨construct.shapeIn cs, carriedPart (some construct) cs⟩ : Lexeme).length := by
      rw [Lexeme.length, Lexeme.length, if_neg (Lexeme.shapeIn_ne _ _).1]
      cases construct <;> rfl
    unfold carriedClosed carriedLexeme
    dsimp only
    split
    · rfl
    · rw [Lexeme.totalLength_singleton, Lexeme.totalLength_singleton, hlength]

theorem mem_carriedClosed {carry : Option Construct} {l : Lexeme}
    (h : l ∈ carriedClosed carry cs) : l.InText ∧ 0 < l.length ∧ l.shape.isOpen = false := by
  cases carry with
  | none => cases h
  | some construct =>
    unfold carriedClosed at h
    dsimp only at h
    split at h
    · cases h
    · next hcs =>
      have hpos := Text.byteSize_pos (carriedPart_ne_nil hcs construct)
      rw [List.mem_singleton.mp h]
      refine ⟨construct.inText_closedShape _, ?_, construct.isOpen_closedShape⟩
      cases construct <;> exact hpos

theorem mem_resume {carry : Option Construct} {l : Lexeme} (h : l ∈ resume carry cs) :
    l.InText ∧ 0 < l.length := by
  obtain ⟨hlength, hne⟩ := length_of_mem_resume h
  refine ⟨?_, hlength ▸ Text.byteSize_pos hne⟩
  rcases List.mem_append.mp h with h | h
  · cases carry with
    | none => cases h
    | some construct =>
      unfold carriedLexeme at h
      dsimp only at h
      split at h
      · cases h
      · rw [List.mem_singleton.mp h]
        refine ⟨(Lexeme.shapeIn_ne _ _).2.1, fun hangles => absurd ?_ hangles⟩
        unfold Construct.shapeIn
        cases construct <;> split <;> rfl
  · exact Lexeme.inText_of_mem_ofText h

theorem mem_closed {carry : Option Construct} {l : Lexeme} (h : l ∈ closed carry cs) :
    l.InText ∧ 0 < l.length := by
  rcases List.mem_append.mp h with h | h
  · exact ⟨(mem_carriedClosed h).1, (mem_carriedClosed h).2.1⟩
  · obtain ⟨l', hl', rfl⟩ := List.mem_map.mp h
    rw [← resume_none] at hl'
    rw [Lexeme.length_close]
    exact ⟨Lexeme.inText_close (mem_resume hl').1, (mem_resume hl').2⟩

theorem mem_carriedClosed_append {carry : Option Construct} {l : Lexeme}
    (h : l ∈ carriedClosed carry cs ++ Lexeme.ofText (rest carry cs)) :
    l.InText ∧ 0 < l.length := by
  rcases List.mem_append.mp h with h | h
  · exact ⟨(mem_carriedClosed h).1, (mem_carriedClosed h).2.1⟩
  · rw [← resume_none] at h
    exact mem_resume h

theorem totalLength_carriedClosed_append (carry : Option Construct) (cs : List Char) :
    Lexeme.totalLength (carriedClosed carry cs ++ Lexeme.ofText (rest carry cs)) =
      Text.byteSize cs := by
  rw [Lexeme.totalLength_append, totalLength_carriedClosed, ← Lexeme.totalLength_append]
  exact totalLength_resume carry cs

theorem totalLength_closed (carry : Option Construct) (cs : List Char) :
    Lexeme.totalLength (closed carry cs) = Text.byteSize cs := by
  rw [closed, Lexeme.totalLength_append, Lexeme.totalLength_map_close,
    ← Lexeme.totalLength_append]
  exact totalLength_carriedClosed_append carry cs

theorem closed_eq_resume {carry : Option Construct}
    (h : ∀ l ∈ resume carry cs, l.shape.isOpen = false) : closed carry cs = resume carry cs := by
  unfold resume at h
  rw [List.forall_mem_append] at h
  have hcarried : carriedClosed carry cs = carriedLexeme carry cs := by
    unfold carriedLexeme at h
    unfold carriedClosed carriedLexeme
    cases carry with
    | none => rfl
    | some construct =>
      dsimp only at h ⊢
      split
      · rfl
      · next hcs =>
        rw [if_neg hcs] at h
        rw [Construct.shapeIn_eq_closedShape (h.1 _ (List.mem_singleton_self _))]
  rw [closed, hcarried, Lexeme.map_close h.2, resume]

/-- A line with the construct that it leaves open, as if that had its end there. -/
theorem closed_of_carryBehind {carry : Option Construct} {construct : Construct}
    (hcarry : carryBehind carry cs = some construct) {before : List Lexeme} {x : List Char}
    (hresume : resume carry cs = before ++ [⟨construct.openShape, x⟩])
    (hbefore : ∀ l ∈ before, l.shape.isOpen = false) :
    closed carry cs = before ++ [⟨construct.closedShape, x⟩] := by
  cases carry with
  | none =>
    rw [resume_none] at hresume
    rw [carryBehind_none_eq, hresume, List.getLast?_concat] at hcarry
    show (Lexeme.ofText cs).map Lexeme.close = _
    rw [hresume]
    exact Lexeme.map_close_concat hbefore hcarry
  | some carried =>
    have hcs : cs ≠ [] := by
      rintro rfl
      rw [resume_nil] at hresume
      simp at hresume
    rw [resume_some hcs] at hresume
    rw [closed_some hcs]
    cases before with
    | nil =>
      obtain ⟨hfirst, hrest⟩ := List.cons.inj hresume
      by_cases hstays : staysOpen (some carried) cs = true
      · rw [carryBehind, if_pos hstays] at hcarry
        rw [hrest, (Lexeme.mk.inj hfirst).2, Option.some.inj hcarry]
        rfl
      · rw [carryBehind, if_neg hstays, hrest] at hcarry
        cases hcarry
    | cons first front =>
      obtain ⟨rfl, hrest⟩ := List.cons.inj hresume
      rw [List.forall_mem_cons] at hbefore
      rw [List.append_eq] at hrest
      have hstays : ¬staysOpen (some carried) cs = true := by
        intro hstays
        rw [rest_of_staysOpen hstays, Lexeme.ofText_nil] at hrest
        simp at hrest
      rw [carryBehind, if_neg hstays, hrest, List.getLast?_concat] at hcarry
      rw [hrest, Lexeme.map_close_concat hbefore.2 hcarry,
        Construct.shapeIn_eq_closedShape hbefore.1]
      rfl

theorem exists_eq_append_last (cs : List Char) :
    ∃ front last, Lexeme.ofText cs = front ++ last ∧ (∀ l ∈ front, l.shape.isOpen = false) ∧
      (last = [] ∨ ∃ l, last = [l] ∧ l.shape.isOpen = true) := by
  rcases List.eq_nil_or_concat (Lexeme.ofText cs) with h | ⟨front, l, h⟩
  · exact ⟨[], [], h, by simp, .inl rfl⟩
  rw [List.concat_eq_append] at h
  have hfront : ∀ x ∈ front, x.shape.isOpen = false := by
    intro x hx
    obtain ⟨a, b, rfl⟩ := List.append_of_mem hx
    rw [List.append_assoc, List.cons_append] at h
    exact isOpen_of_ofText_eq h (by simp)
  by_cases hopen : l.shape.isOpen = true
  · exact ⟨front, [l], h, hfront, .inr ⟨l, rfl, hopen⟩⟩
  · refine ⟨front ++ [l], [], by rw [h, List.append_nil], ?_, .inl rfl⟩
    exact List.forall_mem_append.mpr
      ⟨hfront, List.forall_mem_singleton.mpr (Bool.eq_false_iff.mpr hopen)⟩

/-- Only the last lexeme of a line is changed when it gets its end. -/
theorem exists_closed_eq (carry : Option Construct) (cs : List Char) :
    ∃ front last,
      carriedClosed carry cs ++ Lexeme.ofText (rest carry cs) = front ++ last ∧
        closed carry cs = front ++ last.map Lexeme.close ∧
        (∀ l ∈ front, l.shape.isOpen = false) ∧
        (last = [] ∨
          ∃ l, last = [l] ∧ l.shape.isOpen = true ∧ l ∈ Lexeme.ofText (rest carry cs)) := by
  obtain ⟨front, last, hrest, hfront, hopen⟩ := exists_eq_append_last (rest carry cs)
  refine ⟨carriedClosed carry cs ++ front, last, ?_, ?_, ?_, ?_⟩
  · rw [hrest, List.append_assoc]
  · rw [closed, hrest, List.map_append, Lexeme.map_close hfront, List.append_assoc]
  · exact List.forall_mem_append.mpr ⟨fun l hl => (mem_carriedClosed hl).2.2, hfront⟩
  · apply hopen.imp_right
    rintro ⟨l, rfl, hl⟩
    rw [hrest]
    exact ⟨l, rfl, hl, List.mem_concat_self⟩

theorem shape_ne_of_carryBehind {carry : Option Construct}
    (h : carryBehind carry cs ≠ some .textBlock) :
    ∀ l ∈ Lexeme.ofText (rest carry cs), l.shape ≠ .unterminatedTextBlock := by
  obtain ⟨front, last, hrest, hfront, hlast⟩ := exists_eq_append_last (rest carry cs)
  rw [hrest]
  refine List.forall_mem_append.mpr ⟨?_, ?_⟩
  · intro l hl hshape
    have hclosed := hfront l hl
    rw [hshape] at hclosed
    cases hclosed
  · rcases hlast with rfl | ⟨l, rfl, -⟩
    · simp
    · intro x hx hshape
      rw [List.mem_singleton.mp hx] at hshape
      apply h
      have hstays : ¬staysOpen carry cs = true := by
        intro hstays
        rw [rest_of_staysOpen hstays, Lexeme.ofText_nil] at hrest
        simp at hrest
      rw [carryBehind, if_neg hstays, hrest, List.getLast?_concat, Option.bind_some,
        Construct.ofLexeme?, hshape]

/-- **A line is tokenized in step with its source** if no text block reaches over its ends, and
if the last of its significant lexemes is a semicolon or a brace or nothing is ahead of it. -/
theorem tokenizeLine_inStep {index : LineIndex} {start number : Nat} {later : List (List Char)}
    (hline : Text.lines cs = cs :: later)
    (hcovers : index.Covers (LineIndex.ofText cs) start number (Text.byteSize cs))
    (hcarry : state.carry ≠ some .textBlock)
    (hblock : ∀ l ∈ Lexeme.ofText (rest state.carry cs), l.shape ≠ .unterminatedTextBlock)
    {progress : Progress} (hcontext : progress.context = state.context)
    (hlast : progress.lastLine < number) {behind : List Lexeme}
    (hend : (behind = [] ∧ ∀ l ∈ Lexeme.ofText (rest state.carry cs), l.shape.isOpen = false) ∨
      ∀ l ∈ ((closed state.carry cs).filter (·.isSignificant)).getLast?,
        Lookahead.stopsLambda l = true) :
    let run := progress.run .whole index (Occurrence.before behind start (closed state.carry cs))
    let output := tokenizeLine (String.ofList cs) state
    run.1 = (Emission.mk output.tokens output.diagnostics).lift start number ∧
      run.2.context = output.state.context ∧ run.2.lastLine ≤ number := by
  intro run output
  obtain ⟨hemission, hfinal⟩ := tokenizeLine_eq_run hcarry hline
  obtain ⟨front, last, hlexemes, hclosed, hfront, hopen⟩ := exists_closed_eq state.carry cs
  rw [hlexemes] at hemission hfinal
  have hlast' : last = [] ∨ ∃ l, last = [l] ∧ l.shape.isOpen = true ∧
      l.shape ≠ .unterminatedTextBlock := by
    apply hopen.imp_right
    rintro ⟨l, rfl, hl, hmem⟩
    exact ⟨l, rfl, hl, hblock l hmem⟩
  have hend' : (behind = [] ∧ last = []) ∨
      ∀ l ∈ (front.filter (·.isSignificant)).getLast?, Lookahead.stopsLambda l = true := by
    rw [hclosed] at hend
    rcases hopen with rfl | ⟨l, rfl, hl, hmem⟩
    · rw [List.map_nil, List.append_nil] at hend
      exact hend.imp_left fun hbehind => ⟨hbehind.1, rfl⟩
    · rcases hend with ⟨-, hend⟩ | hend
      · rw [hend l hmem] at hl
        cases hl
      · have htrivia : l.close.shape.isTrivia = true :=
          (Lexeme.close_of_isOpen hl (hblock l hmem)).1
        have hnone : [l.close].filter (·.isSignificant) = [] := by
          rw [List.filter_cons, Lexeme.isSignificant, htrivia]
          rfl
        rw [List.filter_append, List.map_singleton, hnone, List.append_nil] at hend
        exact .inr hend
  have hls : ∀ l ∈ front ++ last, l.InText ∧ 0 < l.length := by
    rw [← hlexemes]
    exact fun l hl => mem_carriedClosed_append hl
  have hsize : Lexeme.totalLength (front ++ last) ≤ Text.byteSize cs := by
    rw [← hlexemes]
    exact Nat.le_of_eq (totalLength_carriedClosed_append state.carry cs)
  have hstart : Progress.InStep number progress ⟨state.context, 0⟩ :=
    ⟨hcontext, .inl ⟨hlast, rfl⟩⟩
  obtain ⟨hrun, hprogress⟩ :=
    Progress.run_close_inStep hcovers hstart hfront hlast' hls hend' hsize
  rw [← hclosed, ← hemission] at hrun
  rw [← hclosed] at hprogress
  refine ⟨hrun, hprogress.context.trans hfinal.symm, ?_⟩
  rcases hprogress.lastLine with ⟨hlt, -⟩ | ⟨heq, -⟩
  · exact Nat.le_of_lt hlt
  · exact Nat.le_of_eq heq

end Line

end JavaHighlight
