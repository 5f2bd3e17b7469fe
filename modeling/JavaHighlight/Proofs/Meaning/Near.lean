import JavaHighlight.Proofs.Meaning.Outline
import JavaHighlight.Proofs.Steps

/-!
# How far a reading looks ahead

Only the headers of modules may be of any length. Every other question about what is ahead is
answered by the next 513 significant lexemes: the 512 of the budget, and the one behind the
parenthesis that closes the parameters of a lambda. So what the first lexemes of a source mean
does not depend on what stands further behind (`tokenize_of_near_eq`).
-/

namespace JavaHighlight

/-! ## Questions -/

namespace Lookahead

/-- The questions that do not ask for the header of a module have the same answers. -/
structure SameNearAnswers (a b : List Lexeme) : Prop where
  angle : angle a = angle b
  lambdaParams : lambdaParams a = lambdaParams b
  opensCall : opensCall a = opensCall b
  annotationWord? : annotationWord? a = annotationWord? b
  recordHeader : recordHeader a = recordHeader b

variable {a b : List Lexeme} {fuel k : Nat}

theorem resolveAngle_take (h : fuel ≤ k) (depth : Nat) (ls : List Lexeme) :
    resolveAngle fuel depth (ls.take k) = resolveAngle fuel depth ls := by
  induction fuel generalizing k depth ls with
  | zero => rfl
  | succ fuel ih =>
    obtain ⟨k, rfl⟩ := Nat.exists_eq_add_of_lt h
    cases ls with
    | nil => rw [List.take_nil]
    | cons l ls =>
      rw [List.take_succ_cons]
      simp only [resolveAngle, ih (Nat.le_add_right fuel k)]

/-- One lexeme more is looked at, behind the parenthesis that closes the parameters. -/
theorem closesBeforeArrow_take (h : fuel < k) (depth : Nat) (ls : List Lexeme) :
    closesBeforeArrow fuel depth (ls.take k) = closesBeforeArrow fuel depth ls := by
  induction fuel generalizing k depth ls with
  | zero => rfl
  | succ fuel ih =>
    obtain ⟨k, rfl⟩ := Nat.exists_eq_add_of_lt h
    cases ls with
    | nil => rw [List.take_nil]
    | cons l ls =>
      have hhead : (ls.take (fuel + 1 + k)).head? = ls.head? := by
        rw [List.head?_take, if_neg (by omega)]
      rw [List.take_succ_cons]
      simp only [closesBeforeArrow, ih (show fuel < fuel + 1 + k by omega), hhead]

theorem opensCall_take (ls : List Lexeme) : opensCall (ls.take (k + 1)) = opensCall ls := by
  cases ls <;> rfl

theorem annotationWord?_take (ls : List Lexeme) :
    annotationWord? (ls.take (k + 1)) = annotationWord? ls := by
  cases ls <;> rfl

theorem recordHeader_take (ls : List Lexeme) :
    recordHeader (ls.take (k + 2)) = recordHeader ls := by
  rcases ls with _ | ⟨l, _ | ⟨next, ls⟩⟩ <;> rfl

/-- Lexemes that agree up to one more than the budget give the same near answers. -/
theorem sameNearAnswers_of_take (h : a.take (budget + 1) = b.take (budget + 1)) :
    SameNearAnswers a b where
  angle := by
    have hle : budget ≤ budget + 1 := Nat.le_succ budget
    unfold angle
    rw [← resolveAngle_take hle 1 a, ← resolveAngle_take hle 1 b, h]
  lambdaParams := by
    have hlt : budget < budget + 1 := Nat.lt_succ_self budget
    unfold lambdaParams
    rw [← closesBeforeArrow_take hlt 1 a, ← closesBeforeArrow_take hlt 1 b, h]
  opensCall := by rw [← opensCall_take a, ← opensCall_take b, h]
  annotationWord? := by rw [← annotationWord?_take a, ← annotationWord?_take b, h]
  recordHeader := by
    have hbudget : budget + 1 = budget - 1 + 2 := rfl
    rw [hbudget] at h
    rw [← recordHeader_take a, ← recordHeader_take b, h]

end Lookahead

/-! ## Readings -/

namespace Lexeme

/-- The words that ask for the header of a module. -/
def asksForModule (l : Lexeme) : Prop :=
  l.shape = .word ∧ (l.word = "module" ∨ l.word = "open")

end Lexeme

namespace Reading

open Lookahead (SameNearAnswers)

variable {a b : List Lexeme} {l : Lexeme}

theorem ofWord_congr_near (h : SameNearAnswers a b) (ctx : Context)
    (hmodule : l.word ≠ "module") (hopen : l.word ≠ "open") :
    ofWord ctx l a = ofWord ctx l b := by
  have hrestricted : restrictedKind? ctx l.word a = restrictedKind? ctx l.word b := by
    unfold restrictedKind?
    rw [h.recordHeader]
    simp only [decide_eq_false hmodule, decide_eq_false hopen, Bool.false_and]
  have hname : nameKind ctx a = nameKind ctx b := by
    unfold nameKind
    rw [h.opensCall]
  unfold ofWord
  rw [hrestricted, hname]

theorem ofSymbol_congr_near (h : SameNearAnswers a b) (ctx : Context) (l : Lexeme) (s : Symbol) :
    ofSymbol ctx l a s = ofSymbol ctx l b s := by
  unfold ofSymbol ofAtSign ofLess ofLeftParen
  rw [h.annotationWord?, h.angle, h.lambdaParams]

/-- A lexeme that does not ask for the header of a module means the same where the next lexemes
are the same. -/
theorem ofLexeme_congr_near (h : SameNearAnswers a b) (hl : ¬l.asksForModule) (mode : Mode)
    (ctx : Context) : ofLexeme mode ctx l a = ofLexeme mode ctx l b := by
  unfold ofLexeme
  cases hshape : l.shape with
  | word =>
    have hmodule : l.word ≠ "module" := fun hword => hl ⟨hshape, .inl hword⟩
    have hopen : l.word ≠ "open" := fun hword => hl ⟨hshape, .inr hword⟩
    exact ofWord_congr_near h ctx hmodule hopen
  | symbol s => exact ofSymbol_congr_near h ctx l s
  | _ => rfl

end Reading

/-! ## What the first lexemes emit -/

namespace Context

def marks : Context → List Piece → List (TokenKind × Flags)
  | _, [] => []
  | ctx, piece :: pieces =>
    (piece.kind, { piece.flags with
      error := piece.flags.error || (ctx.issue? piece.kind).isSome
      lineStart := false }) :: marks (ctx.observePiece piece) pieces

/-- The kinds and marks of the tokens of the first `n` of consecutive significant lexemes. -/
def firstMarks (mode : Mode) : Nat → Context → List Lexeme → List (TokenKind × Flags)
  | 0, _, _ => []
  | _ + 1, _, [] => []
  | n + 1, ctx, l :: ls =>
    ctx.marks (Reading.ofLexeme mode ctx l ls).pieces ++
      firstMarks mode n (ctx.read mode l ls) ls

/-- **The first lexemes mean the same** in front of lexemes that differ only far behind. Each of
them sees as far as the budget goes, and where it ends is the same for both. -/
theorem firstMarks_congr (mode : Mode) {n : Nat} {a b : List Lexeme}
    (h : a.take (n + (Lookahead.budget + 1)) = b.take (n + (Lookahead.budget + 1)))
    (hwords : ∀ l ∈ a.take n, ¬l.asksForModule) (ctx : Context) :
    ctx.firstMarks mode n a = ctx.firstMarks mode n b := by
  induction n generalizing ctx a b with
  | zero => rfl
  | succ n ih =>
    rw [Nat.add_right_comm] at h
    cases a with
    | nil =>
      cases b with
      | nil => rfl
      | cons l b => cases h
    | cons l a =>
      cases b with
      | nil => cases h
      | cons l' b =>
        rw [List.take_succ_cons, List.take_succ_cons] at h
        obtain ⟨rfl, hrest⟩ := List.cons.inj h
        rw [List.take_succ_cons, List.forall_mem_cons] at hwords
        have hnear : a.take (Lookahead.budget + 1) = b.take (Lookahead.budget + 1) := by
          have hle : Lookahead.budget + 1 ≤ n + (Lookahead.budget + 1) := Nat.le_add_left _ n
          rw [← Nat.min_eq_left hle, ← List.take_take, hrest, List.take_take]
        have hreading := Reading.ofLexeme_congr_near
          (Lookahead.sameNearAnswers_of_take hnear) hwords.1 mode ctx
        rw [firstMarks, firstMarks, read, read, hreading, ih hrest hwords.2]

end Context

namespace Progress

theorem marks_emitPieces (index : LineIndex) (start : Nat) (pieces : List Piece)
    (progress : Progress) :
    (progress.emitPieces index start pieces).1.tokens.map Token.mark =
      progress.context.marks pieces := by
  induction pieces generalizing start progress with
  | nil => rfl
  | cons piece pieces ih =>
    rw [emitPieces_cons, Context.marks, ← context_emitPiece index start piece progress, ← ih]
    rfl

theorem marks_emit (mode : Mode) (index : LineIndex) (progress : Progress) (o : Occurrence) :
    (progress.emit mode index o).1.tokens.map Token.mark =
      progress.context.marks
        (Reading.ofLexeme mode progress.context o.lexeme o.ahead).pieces :=
  marks_emitPieces index o.start _ progress

theorem marks_first (mode : Mode) (index : LineIndex) (progress : Progress) (start n : Nat)
    (ls : List Lexeme) :
    ((((progress.visits mode index (Occurrence.ofLexemes start ls)).filter
        (·.lexeme.isSignificant)).take n).flatMap
        fun v => (v.emission mode index).tokens).map Token.mark =
      progress.context.firstMarks mode n (ls.filter (·.isSignificant)) := by
  induction ls generalizing n start progress with
  | nil => cases n <;> rfl
  | cons l ls ih =>
    rw [Occurrence.ofLexemes, visits, Occurrence.significant_ofLexemes]
    cases htrivia : l.shape.isTrivia with
    | true =>
      have hctx := (Context.lexemeSteps_of_isTrivia htrivia mode progress.context
        (ls.filter (·.isSignificant))).2
      rw [List.filter_cons_of_neg (by simp [Visit.lexeme, Lexeme.isSignificant, htrivia]),
        Lexeme.filter_of_isTrivia htrivia, ih, context_emit, hctx]
    | false =>
      rw [List.filter_cons_of_pos (by simp [Visit.lexeme, Lexeme.isSignificant, htrivia]),
        Lexeme.filter_of_significant htrivia]
      cases n with
      | zero => rfl
      | succ n =>
        rw [List.take_succ_cons, List.flatMap_cons, List.map_append, ih, Context.firstMarks,
          context_emit]
        congr 1
        exact marks_emit mode index progress _

end Progress

/-! ## The tokens of the first lexemes -/

namespace Occurrence

theorem nodup_ofLexemes {ls : List Lexeme} (h : ∀ l ∈ ls, 0 < l.length) (start : Nat) :
    (ofLexemes start ls).Nodup := by
  induction ls generalizing start with
  | nil => exact .nil
  | cons l ls ih =>
    rw [List.forall_mem_cons] at h
    refine List.nodup_cons.mpr ⟨fun hmem => ?_, ih h.2 _⟩
    obtain ⟨before, after, -, hstart, -⟩ := mem_ofLexemes_iff.mp hmem
    dsimp only at hstart
    omega

def firstSignificant (n : Nat) (os : List Occurrence) : List Occurrence :=
  (os.filter (·.lexeme.isSignificant)).take n

theorem firstSignificant_cons_of_trivia {o : Occurrence} (h : o.lexeme.isSignificant = false)
    (n : Nat) (os : List Occurrence) :
    firstSignificant n (o :: os) = firstSignificant n os := by
  simp [firstSignificant, h]

theorem firstSignificant_succ_cons {o : Occurrence} (h : o.lexeme.isSignificant = true)
    (n : Nat) (os : List Occurrence) :
    firstSignificant (n + 1) (o :: os) = o :: firstSignificant n os := by
  simp [firstSignificant, h]

theorem mem_of_mem_firstSignificant {n : Nat} {os : List Occurrence} {o : Occurrence}
    (h : o ∈ firstSignificant n os) : o ∈ os ∧ o.lexeme.isSignificant = true :=
  List.mem_filter.mp (List.mem_of_mem_take h)

end Occurrence

namespace Progress

open Occurrence (firstSignificant mem_of_mem_firstSignificant)

theorem filter_mem_firstSignificant {vs : List Visit} (h : (vs.map Visit.occurrence).Nodup)
    (n : Nat) :
    vs.filter (fun v => v.occurrence ∈ firstSignificant n (vs.map Visit.occurrence)) =
      (vs.filter (·.lexeme.isSignificant)).take n := by
  induction vs generalizing n with
  | nil => exact List.take_nil.symm
  | cons v vs ih =>
    rw [List.map_cons, List.nodup_cons] at h
    have hapart : ∀ n, v.occurrence ∉ firstSignificant n (vs.map Visit.occurrence) :=
      fun n hmem => h.1 (mem_of_mem_firstSignificant hmem).1
    rw [List.map_cons]
    cases hv : v.occurrence.lexeme.isSignificant with
    | false =>
      have hskip : (v :: vs).filter (·.lexeme.isSignificant) =
          vs.filter (·.lexeme.isSignificant) :=
        List.filter_cons_of_neg (by simp [Visit.lexeme, hv])
      rw [Occurrence.firstSignificant_cons_of_trivia hv,
        List.filter_cons_of_neg (by simpa using hapart n), ih h.2, hskip]
    | true =>
      have htake : (v :: vs).filter (·.lexeme.isSignificant) =
          v :: vs.filter (·.lexeme.isSignificant) :=
        List.filter_cons_of_pos hv
      rw [htake]
      cases n with
      | zero =>
        refine List.filter_eq_nil_iff.mpr fun w _ => ?_
        simp [firstSignificant]
      | succ n =>
        rw [Occurrence.firstSignificant_succ_cons hv, List.filter_cons_of_pos (by simp),
          List.take_succ_cons, ← ih h.2]
        congr 1
        refine List.filter_congr fun w hw => ?_
        have hne : w.occurrence ≠ v.occurrence := fun heq =>
          h.1 (heq ▸ List.mem_map_of_mem hw)
        simp [hne]

/-- What is told of each part by where the part comes from. -/
theorem filter_flatMap_of_source {α β : Type} {f : α → List β} {P : β → Bool} {p : α → Bool}
    {xs : List α} (h : ∀ x ∈ xs, ∀ y ∈ f x, P y = p x) :
    (xs.flatMap f).filter P = (xs.filter p).flatMap f := by
  induction xs with
  | nil => rfl
  | cons x xs ih =>
    rw [List.forall_mem_cons] at h
    rw [List.flatMap_cons, List.filter_append, ih h.2]
    cases hx : p x with
    | true =>
      rw [List.filter_cons_of_pos hx, List.flatMap_cons,
        List.filter_eq_self.mpr fun y hy => (h.1 y hy).trans hx]
    | false =>
      have hnone : (f x).filter P = [] := by
        refine List.filter_eq_nil_iff.mpr fun y hy => ?_
        rw [h.1 y hy, hx]
        exact Bool.false_ne_true
      rw [hnone, List.filter_cons_of_neg (by rw [hx]; exact Bool.false_ne_true), List.nil_append]

theorem filter_tokens_firstSignificant {ls : List Lexeme}
    (hls : ∀ l ∈ ls, l.InText ∧ 0 < l.length) (mode : Mode) (index : LineIndex)
    (progress : Progress) (start n : Nat) :
    let os := Occurrence.ofLexemes start ls
    (progress.run mode index os).1.tokens.filter (·.isSignificantIn (firstSignificant n os)) =
      (((progress.visits mode index os).filter (·.lexeme.isSignificant)).take n).flatMap
        fun v => (v.emission mode index).tokens := by
  intro os
  have hnodup : ((progress.visits mode index os).map Visit.occurrence).Nodup := by
    rw [map_occurrence_visits]
    exact Occurrence.nodup_ofLexemes (fun l hl => (hls l hl).2) start
  have hlies : ∀ v ∈ progress.visits mode index os, ∀ token ∈ (v.emission mode index).tokens,
      token.isSignificantIn (firstSignificant n os) =
        decide (v.occurrence ∈ firstSignificant n os) := by
    intro v hv token htoken
    rw [Bool.eq_iff_iff, decide_eq_true_iff, isSignificantIn_of_mem_emit hls
      (fun o h => (mem_of_mem_firstSignificant h).1) (mem_of_mem_visits hv) htoken]
    exact and_iff_left_of_imp fun h => (mem_of_mem_firstSignificant h).2
  have hchosen := filter_mem_firstSignificant hnodup n
  rw [map_occurrence_visits] at hchosen
  rw [tokens_run, filter_flatMap_of_source hlies, hchosen]

end Progress

/-! ## Sources that agree in front -/

def significantLexemes (source : String) : List Lexeme :=
  (Lexeme.ofText source.toList).filter (·.isSignificant)

/-- The number of the shape of a lexeme with its text. -/
def Lexeme.label (l : Lexeme) : Nat × List Char :=
  (l.shape.code, l.text)

/-- The label of a lexeme of a source, trivia not counted. Behind all of them comes the end of
the input again and again. -/
def labelAt (source : String) (i : Nat) : Nat × List Char :=
  ((significantLexemes source)[i]?.map Lexeme.label).getD (Shape.endOfInput.code, [])

/-- The tokens of a source that come from its first `n` lexemes that are not trivia. -/
def firstTokens (n : Nat) (source : String) : List Token :=
  let os := Occurrence.ofLexemes 0 (Lexeme.ofText source.toList)
  (tokenize source).tokens.filter (·.isSignificantIn (Occurrence.firstSignificant n os))

namespace Lexeme

variable {cs ds : List Char} {l l' : Lexeme}

theorem eq_of_label_eq (hl : l ∈ ofText cs) (hl' : l' ∈ ofText ds) (h : l.label = l'.label) :
    l = l' := by
  obtain ⟨shape, text⟩ := l
  obtain ⟨shape', text'⟩ := l'
  obtain ⟨hcode, rfl⟩ := Prod.mk.inj h
  obtain rfl : shape = shape' := Shape.code_inj (shape_ne_stray_of_mem_ofText hl)
    (shape_ne_stray_of_mem_ofText hl') hcode
  rfl

/-- A lexeme of a text is not mistaken for the end of the input. -/
theorem label_ne_end (hl : l ∈ ofText cs) : l.label ≠ (Shape.endOfInput.code, []) := by
  intro h
  have hne : Shape.endOfInput ≠ .stray := by decide
  exact shape_ne_endOfInput_of_mem_ofText hl
    (Shape.code_inj (shape_ne_stray_of_mem_ofText hl) hne (congrArg Prod.fst h))

end Lexeme

theorem mem_of_getElem?_significantLexemes {source : String} {i : Nat} {l : Lexeme}
    (h : (significantLexemes source)[i]? = some l) : l ∈ Lexeme.ofText source.toList :=
  (List.mem_filter.mp (List.mem_of_getElem? h)).1

/-- Labels tell lexemes apart from each other and from the end of the input. -/
theorem getElem?_eq_of_labelAt_eq {a b : String} {i : Nat} (h : labelAt a i = labelAt b i) :
    (significantLexemes a)[i]? = (significantLexemes b)[i]? := by
  unfold labelAt at h
  cases ha : (significantLexemes a)[i]? with
  | none =>
    cases hb : (significantLexemes b)[i]? with
    | none => rfl
    | some l' =>
      rw [ha, hb] at h
      exact absurd h.symm (Lexeme.label_ne_end (mem_of_getElem?_significantLexemes hb))
  | some l =>
    cases hb : (significantLexemes b)[i]? with
    | none =>
      rw [ha, hb] at h
      exact absurd h (Lexeme.label_ne_end (mem_of_getElem?_significantLexemes ha))
    | some l' =>
      rw [ha, hb] at h
      exact congrArg some (Lexeme.eq_of_label_eq (mem_of_getElem?_significantLexemes ha)
        (mem_of_getElem?_significantLexemes hb) h)

theorem marks_firstTokens (n : Nat) (source : String) :
    (firstTokens n source).map Token.mark =
      Context.initial.firstMarks .whole n (significantLexemes source) := by
  unfold firstTokens
  dsimp only
  rw [(tokenize_eq_run source).2, significantLexemes,
    ← Progress.marks_first .whole (LineIndex.ofText source.toList) ⟨.initial, 0⟩ 0 n]
  exact congrArg (List.map Token.mark) (Progress.filter_tokens_firstSignificant
    (fun l hl => ⟨Lexeme.inText_of_mem_ofText hl, Lexeme.length_pos_of_mem_ofText hl⟩) ..)

/-- **Lookahead is bounded.** If the first `n` lexemes of two sources and the 513 behind them are
the same, trivia not counted, then the tokens of the first `n` lexemes have the same kinds and
marks, starts of lines apart, unless one of them asks for the header of a module. -/
theorem tokenize_of_near_eq {a b : String} {n : Nat}
    (h : ∀ i < n + 513, labelAt a i = labelAt b i)
    (hwords : ∀ i < n, labelAt a i ≠ (Shape.word.code, "module".toList) ∧
      labelAt a i ≠ (Shape.word.code, "open".toList)) :
    (firstTokens n a).map Token.mark = (firstTokens n b).map Token.mark := by
  have htake : (significantLexemes a).take (n + 513) = (significantLexemes b).take (n + 513) := by
    refine List.ext_getElem? fun i => ?_
    rw [List.getElem?_take, List.getElem?_take]
    split
    · next hi => exact getElem?_eq_of_labelAt_eq (h i hi)
    · rfl
  rw [marks_firstTokens, marks_firstTokens]
  refine Context.firstMarks_congr .whole htake (fun l hl => ?_) .initial
  obtain ⟨i, hi⟩ := List.mem_iff_getElem?.mp hl
  rw [List.getElem?_take] at hi
  split at hi
  · next hlt =>
    have hlabel : labelAt a i = l.label := by
      rw [labelAt, hi]
      rfl
    rw [Lexeme.asksForModule]
    rintro ⟨hshape, hword⟩
    have htext : ∀ word : String, l.word = word → l.label = (Shape.word.code, word.toList) := by
      rintro _ rfl
      rw [Lexeme.label, hshape, Lexeme.word, String.toList_ofList]
    rcases hword with hword | hword
    · exact (hwords i hlt).1 (hlabel.trans (htext _ hword))
    · exact (hwords i hlt).2 (hlabel.trans (htext _ hword))
  · cases hi

/-- A call with `n` commas between its parenthesis and what is behind them. -/
def farCall (n : Nat) (behind : String) : String :=
  "f(" ++ String.ofList (List.replicate n ',') ++ behind

/-- The lexemes of a call up to the last comma. -/
def farCallLexemes (n : Nat) : List Lexeme :=
  ⟨.word, ['f']⟩ :: ⟨.symbol .leftParen, ['(']⟩ :: List.replicate n ⟨.symbol .comma, [',']⟩

theorem ofText_commas (n : Nat) (cs : List Char) :
    Lexeme.ofText (List.replicate n ',' ++ cs) =
      List.replicate n ⟨.symbol .comma, [',']⟩ ++ Lexeme.ofText cs := by
  induction n with
  | zero => rfl
  | succ n ih =>
    rw [List.replicate_succ, List.replicate_succ, List.cons_append, List.cons_append, ← ih]
    rfl

theorem significantLexemes_farCall (n : Nat) (behind : String) :
    significantLexemes (farCall n behind) = farCallLexemes n ++ significantLexemes behind := by
  have hfront : ∀ cs, Lexeme.ofText ('f' :: '(' :: cs) =
      ⟨.word, ['f']⟩ :: ⟨.symbol .leftParen, ['(']⟩ :: Lexeme.ofText cs := fun _ => rfl
  have htext : (farCall n behind).toList =
      'f' :: '(' :: (List.replicate n ',' ++ behind.toList) := by
    simp [farCall]
  have hall : (farCallLexemes n).filter (·.isSignificant) = farCallLexemes n :=
    List.filter_eq_self.mpr (by simp [farCallLexemes, Lexeme.isSignificant, Shape.isTrivia])
  rw [significantLexemes, htext, hfront, ofText_commas, ← List.cons_append, ← List.cons_append,
    List.filter_append, ← farCallLexemes, hall, significantLexemes]

theorem labelAt_farCall {n i : Nat} (hi : i < n + 2) (behind : String) :
    labelAt (farCall n behind) i =
      ((farCallLexemes n)[i]?.map Lexeme.label).getD (Shape.endOfInput.code, []) := by
  have hlength : (farCallLexemes n).length = n + 2 := by simp [farCallLexemes]
  rw [labelAt, significantLexemes_farCall, List.getElem?_append_left (hlength ▸ hi)]

/-- What the name and the parenthesis of a call mean does not depend on what is behind 513
commas. -/
theorem tokenize_of_near_eq_farCall :
    (∀ i < 2 + 513, labelAt (farCall 513 ") -> x") i = labelAt (farCall 513 ";") i) ∧
      (∀ i < 2, labelAt (farCall 513 ") -> x") i ≠ (Shape.word.code, "module".toList) ∧
        labelAt (farCall 513 ") -> x") i ≠ (Shape.word.code, "open".toList)) ∧
      (firstTokens 2 (farCall 513 ") -> x")).map Token.mark =
        (firstTokens 2 (farCall 513 ";")).map Token.mark :=
  have hsame : ∀ i < 2 + 513,
      labelAt (farCall 513 ") -> x") i = labelAt (farCall 513 ";") i := by
    intro i hi
    rw [labelAt_farCall (by omega), labelAt_farCall (by omega)]
  have hwords : ∀ i < 2, labelAt (farCall 513 ") -> x") i ≠ (Shape.word.code, "module".toList) ∧
      labelAt (farCall 513 ") -> x") i ≠ (Shape.word.code, "open".toList) := by
    intro i hi
    rw [labelAt_farCall (by omega)]
    match i, hi with
    | 0, _ => decide
    | 1, _ => decide
  ⟨hsame, hwords, tokenize_of_near_eq hsame hwords⟩

end JavaHighlight
