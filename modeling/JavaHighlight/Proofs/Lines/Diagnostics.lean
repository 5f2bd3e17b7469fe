import JavaHighlight.Proofs.Brackets.Simulation
import JavaHighlight.Proofs.Faults.Reports
import JavaHighlight.Proofs.Lines.Agreement

/-!
# What is wrong with lines

Only blanks, comments and text blocks reach over the end of a line. All other lexemes, the solid
ones, are those of the source and those of its lines alike (`Line.solids_eq_solidsOfLines`).
What is wrong with brackets, and with lexemes that are wrong by themselves, follows from the
solid lexemes (`Progress.firm_run`). So a source and its lines have the same diagnostics, except
for what is left open at the end and for an `@` or a `<` that looks ahead for more than its line
has (`firm_tokenizeByLine`).
-/

namespace JavaHighlight

open Text (EndsLine Lined)

/-! ## Solid lexemes -/

namespace Lexeme

/-- A lexeme that is neither a blank nor a comment nor a text block. -/
def isSolid (l : Lexeme) : Bool :=
  !l.shape.isTrivia && !l.shape.isOpen && l.shape ≠ .textBlock

/-- The solid lexemes among consecutive ones, the first of which starts at `start`, with the
offsets at which they start. -/
def solids (start : Nat) : List Lexeme → List (Nat × Lexeme)
  | [] => []
  | l :: ls =>
    if l.isSolid then (start, l) :: solids (start + l.length) ls
    else solids (start + l.length) ls

theorem solids_cons_of_not {l : Lexeme} (h : l.isSolid = false) (start : Nat)
    (ls : List Lexeme) : solids start (l :: ls) = solids (start + l.length) ls := by
  rw [solids, h]
  rfl

theorem solids_append (start : Nat) (a b : List Lexeme) :
    solids start (a ++ b) = solids start a ++ solids (start + totalLength a) b := by
  induction a generalizing start with
  | nil => rfl
  | cons l a ih =>
    rw [List.cons_append, solids, solids, ih, totalLength_cons, Nat.add_assoc]
    split <;> rfl

theorem solids_add (start offset : Nat) (ls : List Lexeme) :
    solids (start + offset) ls =
      (solids start ls).map fun place => (place.1 + offset, place.2) := by
  induction ls generalizing start with
  | nil => rfl
  | cons l ls ih =>
    rw [solids, solids, Nat.add_right_comm, ih]
    split <;> rfl

theorem isSolid_shapeIn (construct : Construct) (v x : List Char) :
    isSolid ⟨construct.shapeIn v, x⟩ = false := by
  unfold Construct.shapeIn
  split <;> cases construct <;> rfl

theorem isSolid_openShape (construct : Construct) (x : List Char) :
    isSolid ⟨construct.openShape, x⟩ = false := by
  cases construct <;> rfl

end Lexeme

namespace Line

open Lexeme (solids)

theorem solids_resume_eq (carry : Option Construct) (cs : List Char) (start : Nat) :
    solids start (resume carry cs) =
      solids (start + Text.byteSize (carriedPart carry cs)) (Lexeme.ofText (rest carry cs)) := by
  have hcarried : solids start (carriedLexeme carry cs) = [] := by
    unfold carriedLexeme
    split
    · rfl
    · split_ifs
      · rfl
      · exact Lexeme.solids_cons_of_not (Lexeme.isSolid_shapeIn _ _ _) start []
  rw [resume, Lexeme.solids_append, hcarried, totalLength_carriedLexeme]
  rfl

/-- Cutting a text at the end of a line cuts no solid lexeme. -/
theorem solids_resume_append (carry : Option Construct) {u : List Char} (hu : EndsLine u)
    (hne : u ≠ []) (v : List Char) (start : Nat) :
    solids start (resume carry (u ++ v)) =
      solids start (resume carry u) ++
        solids (start + Text.byteSize u) (resume (carryBehind carry u) v) := by
  rw [← totalLength_resume carry u]
  cases junction carry (hu.lineBorder v) hne with
  | apart hcarry h => rw [h, hcarry, Lexeme.solids_append]
  | blank before x y after hcarry hresume hv h =>
    obtain ⟨-, -, hlength⟩ := byteSize_of_cut hresume h
    have hx : (⟨.blank, x⟩ : Lexeme).length = Text.byteSize x := rfl
    have hy : (⟨.blank, y⟩ : Lexeme).length = Text.byteSize y := rfl
    rw [h, hresume, hcarry, hv, Lexeme.solids_append, Lexeme.solids_append,
      Lexeme.solids_cons_of_not rfl, Lexeme.solids_cons_of_not rfl,
      Lexeme.solids_cons_of_not rfl, hlength, Lexeme.totalLength_append,
      Lexeme.totalLength_singleton, hx, hy, Lexeme.solids, List.append_nil]
    simp only [Nat.add_assoc]
  | construct construct before x hcarry hx hresume h =>
    obtain ⟨-, -, hlength⟩ := byteSize_of_cut hresume h
    have hopen : (⟨construct.openShape, x⟩ : Lexeme).length = Text.byteSize x :=
      (length_of_mem_resume (hresume ▸ List.mem_concat_self)).1
    rw [h, hresume, hcarry, Lexeme.solids_append, Lexeme.solids_append,
      Lexeme.solids_cons_of_not (Lexeme.isSolid_shapeIn _ _ _),
      Lexeme.solids_cons_of_not (Lexeme.isSolid_openShape _ _), solids_resume_eq, hlength,
      Lexeme.totalLength_append, Lexeme.totalLength_singleton, hopen, Lexeme.solids,
      List.append_nil]
    simp only [Nat.add_assoc]

/-- The solid lexemes of consecutive lines, the first of which starts at `start`. -/
def solidsOfLines (start : Nat) (carry : Option Construct) :
    List (List Char) → List (Nat × Lexeme)
  | [] => []
  | l :: ls =>
    solids start (resume carry l) ++
      solidsOfLines (start + Text.byteSize l) (carryBehind carry l) ls

/-- **Lines have the solid lexemes of the whole.** -/
theorem solids_eq_solidsOfLines {ls : List (List Char)} (h : Lined ls)
    (carry : Option Construct) (start : Nat) :
    solids start (resume carry ls.flatten) = solidsOfLines start carry ls := by
  induction h generalizing carry start with
  | @last l h =>
    rw [solidsOfLines, solidsOfLines, List.append_nil, List.flatten_singleton]
  | @cons l ls hl hls ih =>
    rw [List.flatten_cons, solids_resume_append carry hl.endsLine hl.ne_nil, solidsOfLines, ih]

end Line

/-! ## Firm problems -/

/-- A problem that a line by itself shows. What is left open at the end is none, and neither is
what is found by looking ahead. -/
def Problem.isFirm : Problem → Bool
  | .unterminatedComment | .unterminatedLiteral .textBlock | .unbalanced (.unclosed _ _) => false
  | .unresolvedAngle => false
  | .unknownCharacter c => c ≠ '@'
  | _ => true

/-- What is wrong with a lexeme wherever it stands. -/
def Lexeme.firmProblem? (l : Lexeme) : Option Problem :=
  match l.shape with
  | .unterminatedString => some (.unterminatedLiteral .string)
  | .unterminatedCharacter => some (.unterminatedLiteral .character)
  | .unknown | .stray => (some (.unknownCharacter (l.text.headD '\x00'))).filter Problem.isFirm
  | _ => none

namespace Reading

theorem problem_ofWord (ctx : Context) (l : Lexeme) (ahead : List Lexeme) :
    (ofWord ctx l ahead).problem = none := by
  unfold ofWord
  repeat' split
  all_goals rfl

theorem filter_problem_ofSymbol (ctx : Context) (l : Lexeme) (ahead : List Lexeme) (s : Symbol) :
    (ofSymbol ctx l ahead s).problem.filter Problem.isFirm = none := by
  have hclosing : (ofClosingAngles ctx l).problem = none := by
    unfold ofClosingAngles
    dsimp only
    split_ifs <;> rfl
  unfold ofSymbol
  split
  · unfold ofAtSign
    split <;> rfl
  · unfold ofLess
    repeat' split
    all_goals rfl
  · rw [hclosing]
    rfl
  · rw [hclosing]
    rfl
  · rw [hclosing]
    rfl
  · rfl
  · rfl

/-- The firm problems of a lexeme do not depend on where it stands. -/
theorem filter_problem_ofLexeme (mode : Mode) (ctx : Context) (l : Lexeme)
    (ahead : List Lexeme) :
    (ofLexeme mode ctx l ahead).problem.filter Problem.isFirm = l.firmProblem? := by
  unfold ofLexeme Lexeme.firmProblem?
  cases l.shape with
  | word => rw [problem_ofWord]; rfl
  | symbol s => exact filter_problem_ofSymbol ctx l ahead s
  | unterminatedTextBlock | unterminatedBlockComment | unterminatedNativeBlock =>
    cases mode <;> rfl
  | _ => rfl

end Reading

namespace PlainStack

/-- The firm diagnostics of a lexeme at its place, and the stack behind it. -/
def firmStep (stack : List Bracket) (place : Nat × Lexeme) : List Diagnostic × List Bracket :=
  let span : Span := ⟨place.1, place.1 + place.2.length⟩
  let (issue, stack) := stepLexeme stack place.2
  (place.2.firmProblem?.toList.map (⟨span, ·⟩) ++
    issue.toList.map fun issue => ⟨span, .unbalanced issue⟩, stack)

/-- The firm diagnostics of lexemes at their places, and the stack behind them. -/
def firmRun (stack : List Bracket) : List (Nat × Lexeme) → List Diagnostic × List Bracket
  | [] => ([], stack)
  | place :: places =>
    let (found, stack) := firmStep stack place
    let (rest, last) := firmRun stack places
    (found ++ rest, last)

theorem firmRun_cons (stack : List Bracket) (place : Nat × Lexeme)
    (places : List (Nat × Lexeme)) :
    firmRun stack (place :: places) =
      ((firmStep stack place).1 ++ (firmRun (firmStep stack place).2 places).1,
        (firmRun (firmStep stack place).2 places).2) := rfl

theorem firmRun_append (stack : List Bracket) (a b : List (Nat × Lexeme)) :
    firmRun stack (a ++ b) =
      ((firmRun stack a).1 ++ (firmRun (firmRun stack a).2 b).1,
        (firmRun (firmRun stack a).2 b).2) := by
  induction a generalizing stack with
  | nil => rfl
  | cons place a ih =>
    rw [List.cons_append, firmRun_cons, ih, firmRun_cons, List.append_assoc]

theorem firmRun_add (stack : List Bracket) (offset : Nat) (places : List (Nat × Lexeme)) :
    firmRun stack (places.map fun place => (place.1 + offset, place.2)) =
      ((firmRun stack places).1.map (Line.liftDiagnostic offset), (firmRun stack places).2) := by
  induction places generalizing stack with
  | nil => rfl
  | cons place places ih =>
    have hstep : firmStep stack (place.1 + offset, place.2) =
        ((firmStep stack place).1.map (Line.liftDiagnostic offset), (firmStep stack place).2) := by
      unfold firmStep
      dsimp only
      rw [List.map_append, List.map_map, List.map_map, Nat.add_right_comm]
      rfl
    rw [List.map_cons, firmRun_cons, hstep, ih, firmRun_cons, List.map_append]

/-- Lexemes that are not solid have nothing wrong with them and leave the stack alone. -/
theorem firmStep_of_not_isSolid {l : Lexeme} (h : l.isSolid = false) (stack : List Bracket)
    (start : Nat) : firmStep stack (start, l) = ([], stack) := by
  unfold firmStep Lexeme.firmProblem? stepLexeme
  unfold Lexeme.isSolid at h
  cases hl : l.shape with
  | symbol | unterminatedString | unterminatedCharacter | unknown | stray =>
    rw [hl] at h
    cases h
  | _ => rfl

end PlainStack

/-! ## Runs -/

namespace Progress

/-- The firm diagnostics of a lexeme are those of the plain stack. -/
theorem firm_emit (mode : Mode) (index : LineIndex) (progress : Progress) (o : Occurrence)
    {depth : Nat}
    (h : progress.context.Promised depth
      (if o.lexeme.isTrivia then o.ahead else o.lexeme :: o.ahead)) :
    (progress.emit mode index o).1.diagnostics.filter (·.problem.isFirm) =
        (PlainStack.firmStep progress.context.plainStack (o.start, o.lexeme)).1 ∧
      (progress.emit mode index o).2.context.plainStack =
        (PlainStack.firmStep progress.context.plainStack (o.start, o.lexeme)).2 := by
  obtain ⟨hbrackets, hstack⟩ := emit_simulates mode index progress o h
  rw [filter_diagnostics_emit] at hbrackets
  refine ⟨?_, hstack⟩
  have hown : ∀ (problem : Option Problem) (span : Span),
      (problem.toList.map fun problem => (⟨span, problem⟩ : Diagnostic)).filter
        (·.problem.isFirm) = (problem.filter Problem.isFirm).toList.map (⟨span, ·⟩) := by
    intro problem span
    cases problem with
    | none => rfl
    | some problem => cases hfirm : problem.isFirm <;> simp [hfirm, Option.filter]
  have hpieces : ((progress.emitPieces index o.start
      (Reading.ofLexeme mode progress.context o.lexeme o.ahead).pieces).1.diagnostics).filter
        (·.problem.isFirm) = (progress.emitPieces index o.start
      (Reading.ofLexeme mode progress.context o.lexeme o.ahead).pieces).1.diagnostics := by
    refine List.filter_eq_self.mpr fun d hd => ?_
    obtain ⟨x, -, issue, hissue, hproblem⟩ := diagnostics_emitPieces hd
    rw [hproblem]
    obtain ⟨bracket, -, ⟨-, rfl⟩ | ⟨region, -, -, rfl⟩⟩ := Context.issue?_eq_some hissue <;> rfl
  unfold emit PlainStack.firmStep
  rw [Emission.diagnostics_append, List.filter_append, hpieces, hbrackets, hown,
    Reading.filter_problem_ofLexeme]

/-- The firm diagnostics of a run follow from its solid lexemes. -/
theorem firm_run (mode : Mode) (index : LineIndex) (progress : Progress) {depth : Nat}
    {ls : List Lexeme}
    (h : progress.context.Promised depth (ls.filter (·.isSignificant))) (start : Nat) :
    (progress.run mode index (Occurrence.ofLexemes start ls)).1.diagnostics.filter
        (·.problem.isFirm) =
        (PlainStack.firmRun progress.context.plainStack (Lexeme.solids start ls)).1 ∧
      (progress.run mode index (Occurrence.ofLexemes start ls)).2.context.plainStack =
        (PlainStack.firmRun progress.context.plainStack (Lexeme.solids start ls)).2 := by
  induction ls generalizing start progress depth with
  | nil => exact ⟨rfl, rfl⟩
  | cons l ls ih =>
    rw [Lexeme.filter_isSignificant_cons] at h
    obtain ⟨depth', h', -⟩ := h.keeps mode
    obtain ⟨hfound, hstack⟩ :=
      firm_emit mode index progress ⟨l, start, ls.filter (·.isSignificant)⟩ h
    rw [← context_emit mode index progress ⟨l, start, _⟩] at h'
    obtain ⟨hrest, hlast⟩ := ih _ h' (start + l.length)
    rw [hstack] at hrest hlast
    rw [Occurrence.ofLexemes, run_cons, Occurrence.significant_ofLexemes,
      Emission.diagnostics_append, List.filter_append, hfound, hrest, hlast, Lexeme.solids]
    cases hl : l.isSolid with
    | true => exact ⟨rfl, rfl⟩
    | false =>
      rw [PlainStack.firmStep_of_not_isSolid hl]
      exact ⟨rfl, rfl⟩

end Progress

/-! ## Lines -/

namespace Line

open Lexeme (solids)

theorem plainStack_contextOfRest (state : LineState) (cs : List Char) :
    (contextOfRest state cs).plainStack = state.context.plainStack := by
  unfold Context.plainStack
  rw [regions_contextOfRest]

theorem firm_tokenizeLine {state : LineState} (h : state.context.Promised 0 [])
    (line : String) :
    let solid := solids 0 (resume state.carry line.toList)
    (tokenizeLine line state).diagnostics.filter (·.problem.isFirm) =
        (PlainStack.firmRun state.context.plainStack solid).1 ∧
      (tokenizeLine line state).state.context.plainStack =
        (PlainStack.firmRun state.context.plainStack solid).2 := by
  intro solid
  have hstart := promised_contextOfRest h line.toList
    ((Lexeme.ofText (rest state.carry line.toList)).filter (·.isSignificant))
  have hrun := Progress.firm_run .line (LineIndex.ofText line.toList)
    ⟨contextOfRest state line.toList, 0⟩ hstart
    (Text.byteSize (carriedPart state.carry line.toList))
  have hsolid : solid = solids (Text.byteSize (carriedPart state.carry line.toList))
      (Lexeme.ofText (rest state.carry line.toList)) := by
    rw [← Nat.zero_add (Text.byteSize _)]
    exact solids_resume_eq state.carry line.toList 0
  dsimp only at hrun
  rw [plainStack_contextOfRest, ← hsolid] at hrun
  rw [tokenizeLine_eq]
  exact hrun

theorem firm_tokenizeFrom (lines : List (List Char)) {state : LineState}
    (h : state.context.Promised 0 []) (start number : Nat) :
    (tokenizeFrom start number state lines).1.diagnostics.filter (·.problem.isFirm) =
      (PlainStack.firmRun state.context.plainStack
        (solidsOfLines start state.carry lines)).1 := by
  induction lines generalizing state start number with
  | nil => rfl
  | cons line lines ih =>
    let output := tokenizeLine (String.ofList line) state
    have hline := firm_tokenizeLine h (String.ofList line)
    rw [String.toList_ofList] at hline
    obtain ⟨hfound, hstack⟩ := hline
    have hlifted : (output.diagnostics.map (liftDiagnostic start)).filter (·.problem.isFirm) =
        (output.diagnostics.filter (·.problem.isFirm)).map (liftDiagnostic start) :=
      List.filter_map
    have hsolids : solids start (resume state.carry line) =
        (solids 0 (resume state.carry line)).map fun place => (place.1 + start, place.2) := by
      rw [← Lexeme.solids_add, Nat.zero_add]
    have hrest := ih (promised_tokenizeLine h (String.ofList line)) (start + Text.byteSize line)
      (number + 1)
    rw [hstack, carry_tokenizeLine] at hrest
    rw [tokenizeFrom, Emission.diagnostics_append, List.filter_append, hlifted, hfound, hrest,
      solidsOfLines, PlainStack.firmRun_append, hsolids, PlainStack.firmRun_add]

/-- What is not firm about a line was found by looking ahead in it. -/
theorem problem_of_isFirm_eq_false {line : String} {state : LineState} {d : Diagnostic}
    (hd : d ∈ (tokenizeLine line state).diagnostics) (hfirm : d.problem.isFirm = false) :
    d.problem = .unresolvedAngle ∨ d.problem = .unknownCharacter '@' := by
  have hsource := (carriedPart_append_rest state.carry line.toList).symm
  have hfaults := Progress.faults_run hsource .line (.ofText line.toList)
    ⟨contextOfRest state line.toList, 0⟩
  rw [tokenizeLine_eq] at hd
  have hclosed := hfaults.closed rfl d hd
  obtain ⟨token, -, -, hconcerns⟩ := exists_of_mem_forall₂ hfaults.reported.matched hd
  cases hproblem : d.problem with
  | unterminatedLiteral form =>
    rw [hproblem] at hfirm hclosed
    cases form with
    | textBlock => cases hclosed
    | string | character => cases hfirm
  | unterminatedComment =>
    rw [hproblem] at hclosed
    cases hclosed
  | unbalanced issue =>
    rw [hproblem] at hfirm
    cases issue with
    | unexpectedCloser | mismatched => cases hfirm
    | unclosed count innermost => exact absurd hproblem (hconcerns.ne_unclosed count innermost)
  | unresolvedAngle => exact .inl rfl
  | unknownCharacter c =>
    rw [hproblem] at hfirm
    refine .inr (congrArg _ ?_)
    simpa [Problem.isFirm] using hfirm

theorem exists_of_mem_tokenizeFrom {lines : List (List Char)} {start number : Nat}
    {state : LineState} {d : Diagnostic}
    (hd : d ∈ (tokenizeFrom start number state lines).1.diagnostics) :
    ∃ line state', ∃ d' ∈ (tokenizeLine line state').diagnostics, d'.problem = d.problem := by
  induction lines generalizing start number state with
  | nil => cases hd
  | cons line lines ih =>
    rcases List.mem_append.mp hd with hd | hd
    · obtain ⟨d', hd', rfl⟩ := List.mem_map.mp hd
      exact ⟨_, state, d', hd', rfl⟩
    · exact ih hd

end Line

/-- **Line by line, only lookahead finds more to be wrong.** A source and its lines have the same
firm diagnostics, in the same places and the same order. Whatever else is wrong with a line is an
`@` or a `<` that looking ahead did not settle. -/
theorem firm_tokenizeByLine (source : String) :
    (tokenizeByLine source).diagnostics.filter (·.problem.isFirm) =
        (tokenize source).diagnostics.filter (·.problem.isFirm) ∧
      ∀ d ∈ (tokenizeByLine source).diagnostics,
        d ∈ (tokenize source).diagnostics ∨
          d.problem = .unresolvedAngle ∨ d.problem = .unknownCharacter '@' := by
  have hwhole : (tokenize source).diagnostics.filter (·.problem.isFirm) =
      (PlainStack.firmRun Context.initial.plainStack
        (Lexeme.solids 0 (Lexeme.ofText source.toList))).1 := by
    rw [(tokenize_eq_run source).2]
    have hopen : ∀ (ctx : Context) (span : Span), (ctx.unclosed?.toList.map fun issue =>
        (⟨span, .unbalanced issue⟩ : Diagnostic)).filter (·.problem.isFirm) = [] := by
      intro ctx span
      obtain hnone | ⟨count, innermost, hsome⟩ :=
        ctx.unclosed_cases fun issue => ⟨span, .unbalanced issue⟩
      · rw [hnone]
        rfl
      · rw [hsome]
        rfl
    dsimp only
    rw [List.filter_append, hopen, List.append_nil]
    exact (Progress.firm_run .whole _ ⟨.initial, 0⟩ (Context.promised_initial _) 0).1
  have hlines : (tokenizeByLine source).diagnostics.filter (·.problem.isFirm) =
      (PlainStack.firmRun Context.initial.plainStack
        (Line.solidsOfLines 0 none (Text.lines source.toList))).1 := by
    have hinitial : LineState.initial.context.Promised 0 [] := Context.promised_initial []
    exact Line.firm_tokenizeFrom (Text.lines source.toList) hinitial 0 1
  have hfirm : (tokenizeByLine source).diagnostics.filter (·.problem.isFirm) =
      (tokenize source).diagnostics.filter (·.problem.isFirm) := by
    rw [hlines, hwhole, ← Line.solids_eq_solidsOfLines (Text.lined_lines source.toList),
      Text.flatten_lines, Line.resume_none]
  refine ⟨hfirm, fun d hd => ?_⟩
  cases h : d.problem.isFirm with
  | true =>
    have hmem : d ∈ (tokenizeByLine source).diagnostics.filter (·.problem.isFirm) :=
      List.mem_filter.mpr ⟨hd, h⟩
    rw [hfirm] at hmem
    exact .inl (List.mem_filter.mp hmem).1
  | false =>
    obtain ⟨line, state, d', hd', hproblem⟩ := Line.exists_of_mem_tokenizeFrom hd
    rw [← hproblem] at h ⊢
    exact .inr (Line.problem_of_isFirm_eq_false hd' h)

/-- Type arguments that go on in the next line are not told from a comparison, and the name
behind an `@` is not found there. -/
theorem diagnostics_over_lines :
    ((tokenizeByLine "List<\nString> x;").diagnostics = [⟨⟨4, 5⟩, .unresolvedAngle⟩] ∧
      (tokenize "List<\nString> x;").diagnostics = []) ∧
    ((tokenizeByLine "@\nA").diagnostics = [⟨⟨0, 1⟩, .unknownCharacter '@'⟩] ∧
      (tokenize "@\nA").diagnostics = []) := by
  decide +kernel

end JavaHighlight
