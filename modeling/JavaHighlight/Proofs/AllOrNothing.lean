import JavaHighlight.CommandLine

/-!
# All or nothing

The program either answers for all its files or gives up with nothing put out
(`CommandLine.run_all_or_nothing`). What it gives up for is the first flag that means nothing, then
the lack of a path, then the first file that cannot be read. Since all files are read before
anything is put out (`CommandLine.readAll_of_unreadable`), a failure never comes too late.
-/

namespace JavaHighlight.CommandLine

/-- The program has given up: it says why, and nothing is put out. -/
structure Outcome.Refuses (outcome : Outcome) (failure : Failure) : Prop where
  exitCode : outcome.exitCode ≠ 0
  output : outcome.output = ""
  errors : ∃ more, outcome.errors = "error: " ++ failure.message ++ "\n" ++ more

theorem refuses_fail (failure : Failure) (more : String) : (fail failure more).Refuses failure :=
  ⟨Nat.one_ne_zero, rfl, more, rfl⟩

/-! ## Arguments -/

def Meaningless (arg : String) : Prop :=
  arg.toList.head? = some '-' ∧ arg ∉ ["--summary", "-s", "--lines", "-l"]

def pathsOf (args : List String) : List String :=
  args.filter (·.toList.head? ≠ some '-')

def AsksForSummary (args : List String) : Prop :=
  "--summary" ∈ args ∨ "-s" ∈ args

instance (args : List String) : Decidable (AsksForSummary args) :=
  inferInstanceAs (Decidable (_ ∨ _))

def AsksForLines (args : List String) : Prop :=
  "--lines" ∈ args ∨ "-l" ∈ args

instance (args : List String) : Decidable (AsksForLines args) :=
  inferInstanceAs (Decidable (_ ∨ _))

variable {args args' before after : List String}

theorem any_mem_pair (a b : String) (args : List String) :
    args.any (· ∈ [a, b]) = decide (a ∈ args ∨ b ∈ args) := by
  rw [Bool.eq_iff_iff, List.any_eq_true, decide_eq_true_iff]
  simp only [List.mem_cons, List.not_mem_nil, or_false, decide_eq_true_eq]
  constructor
  · rintro ⟨arg, harg, rfl | rfl⟩
    · exact .inl harg
    · exact .inr harg
  · rintro (ha | hb)
    · exact ⟨a, ha, .inl rfl⟩
    · exact ⟨b, hb, .inr rfl⟩

theorem isUnknownFlag_iff {arg : String} : isUnknownFlag arg = true ↔ Meaningless arg := by
  simp [isUnknownFlag, isFlag, Meaningless, summaryFlags, lineFlags]

theorem parse_of_meaningless {flag : String} (hflag : Meaningless flag)
    (hbefore : ∀ arg ∈ before, ¬Meaningless arg) :
    parse (before ++ flag :: after) = .error (.unknownFlag flag) := by
  have hfind : (before ++ flag :: after).find? isUnknownFlag = some flag := by
    refine List.find?_eq_some_iff_append.mpr ⟨isUnknownFlag_iff.mpr hflag, before, after, rfl, ?_⟩
    intro arg harg
    rw [Bool.not_eq_true', Bool.eq_false_iff, Ne, isUnknownFlag_iff]
    exact hbefore arg harg
  rw [parse, hfind]

theorem parse_of_known (h : ∀ arg ∈ args, ¬Meaningless arg) :
    parse args =
      if pathsOf args = [] then .error .noInput
      else .ok ⟨decide (AsksForSummary args), decide (AsksForLines args), pathsOf args⟩ := by
  have hfind : args.find? isUnknownFlag = none :=
    List.find?_eq_none.mpr fun arg harg hflag => h arg harg (isUnknownFlag_iff.mp hflag)
  have hpaths : args.filter (!isFlag ·) = pathsOf args := by
    refine List.filter_congr fun arg _ => ?_
    rw [isFlag, decide_not]
  have hsummary : args.any (· ∈ summaryFlags) = decide (AsksForSummary args) :=
    any_mem_pair "--summary" "-s" args
  have hlines : args.any (· ∈ lineFlags) = decide (AsksForLines args) :=
    any_mem_pair "--lines" "-l" args
  rw [parse, hfind]
  dsimp only
  rw [hpaths, hsummary, hlines]

/-! ## Files -/

/-- The file at a path holds a text. -/
def Holds (stored : String → Except ReadFailure ByteArray) (path text : String) : Prop :=
  ∃ bytes, stored path = .ok bytes ∧ String.fromUTF8? bytes = some text

/-- The file at a path cannot be read, or what it holds is no text. -/
inductive Unreadable (stored : String → Except ReadFailure ByteArray) (path : String) :
    ReadFailure → Prop
  | failure {reason : ReadFailure} (h : stored path = .error reason) : Unreadable stored path reason
  | notUtf8 {bytes : ByteArray} (h : stored path = .ok bytes)
      (hbytes : String.fromUTF8? bytes = none) : Unreadable stored path .notUtf8

/-- The text at a path, given the bytes that are stored there. -/
def textAt (stored : String → Except ReadFailure ByteArray) (path : String) :
    Except ReadFailure String :=
  stored path >>= decodeFile

variable {stored : String → Except ReadFailure ByteArray} {path text : String}
  {reason : ReadFailure}

theorem Holds.textAt_eq (h : Holds stored path text) : textAt stored path = .ok text := by
  obtain ⟨bytes, hstored, htext⟩ := h
  rw [textAt, hstored]
  show decodeFile bytes = _
  rw [decodeFile, htext]

theorem Unreadable.textAt_eq (h : Unreadable stored path reason) :
    textAt stored path = .error reason := by
  cases h with
  | failure hstored =>
    rw [textAt, hstored]
    rfl
  | notUtf8 hstored hbytes =>
    rw [textAt, hstored]
    show decodeFile _ = _
    rw [decodeFile, hbytes]

theorem readAll_of_holds {paths : List String} {texts : String → String}
    (h : ∀ path ∈ paths, Holds stored path (texts path)) :
    readAll (textAt stored) paths = .ok (paths.map fun path => (path, texts path)) := by
  induction paths with
  | nil => rfl
  | cons path paths ih =>
    rw [List.forall_mem_cons] at h
    rw [readAll, h.1.textAt_eq]
    dsimp only
    rw [ih h.2]
    rfl

/-- The first file that cannot be read decides, whatever is behind it. -/
theorem readAll_of_unreadable (hbefore : ∀ path ∈ before, ∃ text, Holds stored path text)
    (hpath : Unreadable stored path reason) :
    readAll (textAt stored) (before ++ path :: after) = .error (.unreadable path reason) := by
  induction before with
  | nil => rw [List.nil_append, readAll, hpath.textAt_eq]
  | cons first before ih =>
    obtain ⟨⟨text, hfirst⟩, hothers⟩ := List.forall_mem_cons.mp hbefore
    rw [List.cons_append, readAll, hfirst.textAt_eq]
    dsimp only
    rw [ih hothers]
    rfl

/-! ## Answers -/

/-- What is put out about a file that holds the given text, in the way that the arguments ask
for. -/
def report (args : List String) (path text : String) : String :=
  let output := if AsksForLines args then tokenizeByLine text else tokenize text
  (if 2 ≤ (pathsOf args).length then "== " ++ path ++ " ==\n" else "") ++
    if AsksForSummary args then Report.summary output else Report.tokens text output

theorem refuses_of_meaningless (files : String → Except ReadFailure String) {flag : String}
    (hflag : Meaningless flag) (hbefore : ∀ arg ∈ before, ¬Meaningless arg) :
    (run files (before ++ flag :: after)).Refuses (.unknownFlag flag) := by
  rw [run, parse_of_meaningless hflag hbefore]
  exact refuses_fail _ _

theorem refuses_of_no_path (files : String → Except ReadFailure String)
    (h : ∀ arg ∈ args, ¬Meaningless arg) (hpaths : pathsOf args = []) :
    (run files args).Refuses .noInput := by
  rw [run, parse_of_known h, if_pos hpaths]
  exact refuses_fail _ _

theorem refuses_of_unreadable (h : ∀ arg ∈ args, ¬Meaningless arg)
    (hpaths : pathsOf args = before ++ path :: after)
    (hbefore : ∀ path ∈ before, ∃ text, Holds stored path text)
    (hpath : Unreadable stored path reason) :
    (run (textAt stored) args).Refuses (.unreadable path reason) := by
  rw [run, parse_of_known h, if_neg (by rw [hpaths]; simp)]
  dsimp only
  rw [hpaths, readAll_of_unreadable hbefore hpath]
  exact refuses_fail _ _

theorem run_of_holds {texts : String → String} (h : ∀ arg ∈ args, ¬Meaningless arg)
    (hpaths : pathsOf args ≠ [])
    (hholds : ∀ path ∈ pathsOf args, Holds stored path (texts path)) :
    (run (textAt stored) args).exitCode = 0 ∧
      (run (textAt stored) args).output =
        String.join ((pathsOf args).map fun path => report args path (texts path)) := by
  rw [run, parse_of_known h, if_neg hpaths]
  dsimp only
  rw [readAll_of_holds hholds]
  refine ⟨rfl, ?_⟩
  dsimp only
  rw [List.map_map, List.map_map]
  congr 1
  refine List.map_congr_left fun path _ => ?_
  unfold report
  simp only [Function.comp_apply, listing, heading, tokenizeWith, decide_eq_true_eq]
  rfl

theorem run_congr (files : String → Except ReadFailure String)
    (h : ∀ arg ∈ args, ¬Meaningless arg) (h' : ∀ arg ∈ args', ¬Meaningless arg)
    (hpaths : pathsOf args = pathsOf args')
    (hsummary : AsksForSummary args ↔ AsksForSummary args')
    (hlines : AsksForLines args ↔ AsksForLines args') : run files args = run files args' := by
  have hparse : parse args = parse args' := by
    rw [parse_of_known h, parse_of_known h', hpaths, decide_eq_decide.mpr hsummary,
      decide_eq_decide.mpr hlines]
  rw [run, run, hparse]

/-- **The command line is all or nothing.** The first flag that means nothing, else the lack of a
path, else the first file that holds no text is what the program gives up for, with nothing put
out. Otherwise it succeeds, whatever is wrong with the sources, and puts out a report for each
file in order. Where the flags stand and how often they are repeated does not matter. -/
theorem run_all_or_nothing (stored : String → Except ReadFailure ByteArray) :
    (∀ before flag after, Meaningless flag → (∀ arg ∈ before, ¬Meaningless arg) →
      (run (textAt stored) (before ++ flag :: after)).Refuses (.unknownFlag flag)) ∧
    (∀ args, (∀ arg ∈ args, ¬Meaningless arg) →
      let outcome := run (textAt stored) args
      (pathsOf args = [] → outcome.Refuses .noInput) ∧
      (∀ before path after reason, pathsOf args = before ++ path :: after →
        (∀ earlier ∈ before, ∃ text, Holds stored earlier text) →
        Unreadable stored path reason → outcome.Refuses (.unreadable path reason)) ∧
      ∀ texts : String → String, pathsOf args ≠ [] →
        (∀ path ∈ pathsOf args, Holds stored path (texts path)) →
        outcome.exitCode = 0 ∧
          outcome.output =
            String.join ((pathsOf args).map fun path => report args path (texts path))) ∧
    ∀ args args', (∀ arg ∈ args, ¬Meaningless arg) → (∀ arg ∈ args', ¬Meaningless arg) →
      pathsOf args = pathsOf args' → (AsksForSummary args ↔ AsksForSummary args') →
      (AsksForLines args ↔ AsksForLines args') →
      run (textAt stored) args = run (textAt stored) args' :=
  ⟨fun _ _ _ hflag hbefore => refuses_of_meaningless _ hflag hbefore,
    fun _ h => ⟨refuses_of_no_path _ h,
      fun _ _ _ _ hpaths hbefore hpath => refuses_of_unreadable h hpaths hbefore hpath,
      fun _ hpaths hholds => run_of_holds h hpaths hholds⟩,
    fun _ _ h h' => run_congr _ h h'⟩

/-- A flag that means nothing comes before a file that is missing. -/
example : run (textAt fun _ => .error .notFound) ["A.java", "-s", "-x", "-y"] =
    fail (.unknownFlag "-x") usage := by
  decide +kernel

end JavaHighlight.CommandLine
