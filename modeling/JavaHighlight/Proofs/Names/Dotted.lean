import JavaHighlight.Proofs.Names.Honoured

/-!
# Dotted names in modules

Directly inside of a module the words of directives are keywords wherever they stand, and all
other words that are not reserved are plain names unless a parenthesis opens behind them
(`Context.NamesInModule.wordKind_eq`). So a dotted name is read as identifiers joined by points
exactly if none of its parts is the word of a directive (`moduleNames_read`); in
`exports to.acme.with;` both ends of the name are keywords (`keywords_at_points`).

The proof goes along the name: behind a part and a point the context is again one in which a
part is read like that (`Context.NamesInModule.after`).
-/

namespace JavaHighlight

/-- Words joined by points. -/
inductive DottedName : List Step → Prop
  | word {s : Step} (hword : s.isWord = true) : DottedName [s]
  | qualified {s point : Step} {names : List Step} (hword : s.isWord = true)
    (hpoint : point.kind = .dot) (rest : DottedName names) : DottedName (s :: point :: names)

/-- How words are read directly inside of modules. -/
structure ModuleNamesRead (steps : List Step) : Prop where
  /-- A word that is neither part of an annotation nor the name of a type is a keyword of modules
  exactly if it is the word of a directive. -/
  word : ∀ earlier s later, steps = earlier ++ s :: later → s.isWord = true →
    s.before.top = some .moduleBody → s.kind ≠ .annotationPart → s.kind ≠ .className →
      (s.kind = .moduleKeyword ↔ s.text ∈ Keyword.moduleDirectives)
  /-- In a dotted name that is neither part of an annotation nor the name of a type the words of
  directives are keywords and all others identifiers. -/
  name : ∀ earlier names later, steps = earlier ++ names ++ later → DottedName names →
    (∀ s ∈ names.head?, s.before.top = some .moduleBody ∧ s.kind ≠ .annotationPart ∧
      s.kind ≠ .className) →
    (∀ s ∈ names, Keyword.isReserved s.text = false) → (∀ s ∈ later.head?, s.kind ≠ .leftParen) →
      (∀ s ∈ names, s.isWord = true →
        s.kind = if s.text ∈ Keyword.moduleDirectives then .moduleKeyword else .identifier) ∧
      (QualifiedName (names.map Step.kind) ↔
        ∀ s ∈ names, s.isWord = true → s.text ∉ Keyword.moduleDirectives)

theorem Keyword.isReserved_of_mem_moduleDirectives {word : String} (h : word ∈ moduleDirectives) :
    isReserved word = false := by
  have key : ∀ word ∈ moduleDirectives, isReserved word = false := by decide
  exact key word h

/-! ## The context of a part -/

namespace Context

/-- Directly inside of a module, and no word that comes now is part of an annotation or the name
of a type. -/
structure NamesInModule (ctx : Context) : Prop where
  top : ctx.top = some .moduleBody
  annotation : ctx.awaitsAnnotationName = false
  type : ctx.typeNameAwaited = false

namespace NamesInModule

variable {ctx : Context} {s point : Step} {word : String}

theorem wordKind_eq (h : ctx.NamesInModule) (hword : Keyword.isReserved word = false)
    (ahead : List Lexeme) :
    Reading.wordKind ctx word ahead =
      if word ∈ Keyword.moduleDirectives then .moduleKeyword
      else if Lookahead.opensCall ahead then .functionName else .identifier := by
  have hconstants : ctx.inConstants = false := by
    rw [inConstants, h.top]
    rfl
  rw [Reading.wordKind_of_name h.annotation h.type hword, Reading.restrictedKind?, if_pos h.top,
    Reading.nameKind, hconstants]
  split <;> rfl

theorem of_wordKind (htop : ctx.top = some .moduleBody)
    (hword : Keyword.isReserved word = false) {ahead : List Lexeme}
    (hpart : Reading.wordKind ctx word ahead ≠ .annotationPart)
    (htype : Reading.wordKind ctx word ahead ≠ .className) : ctx.NamesInModule := by
  have hpart' : ctx.awaitsAnnotationName = false :=
    Bool.eq_false_iff.mpr fun h =>
      hpart (Reading.wordKind_of_awaitsAnnotationName h word ahead)
  refine ⟨htop, hpart', Bool.eq_false_iff.mpr fun h => ?_⟩
  exact htype (Reading.wordKind_of_typeNameAwaited hpart' h hword ahead)

theorem after (h : s.before.NamesInModule)
    (hkind : s.kind ∈ [TokenKind.moduleKeyword, .identifier]) (hbefore : point.before = s.after)
    (hpoint : point.kind = .dot) : point.after.NamesInModule := by
  have key : ∀ kind ∈ [TokenKind.moduleKeyword, .identifier], kind.isTrivia = false ∧
      kind ∉ TokenKind.delimiters ∧ kind.isAngle = false := by decide
  obtain ⟨htrivia, hdelimiter, hangle⟩ := key _ hkind
  have hpointTrivia : point.kind.isTrivia = false := by rw [hpoint]; rfl
  have hregions : point.after.regions = s.before.regions := by
    rw [Step.regions_after, hpoint, hbefore]
    show s.after.regions = s.before.regions
    rw [Step.regions_after, regionsAfter_of_neutral hdelimiter hangle]
  have habsent : s.after.annotationName = .absent := by
    rw [Step.annotationName_after htrivia]
    simp only [List.mem_cons, List.not_mem_nil, or_false] at hkind
    rcases hkind with hkind | hkind <;> rw [hkind] <;> rfl
  refine ⟨?_, ?_, ?_⟩
  · rw [Context.top, hregions]
    exact h.top
  · rw [awaitsAnnotationName, Step.annotationName_after hpointTrivia, hpoint, hbefore,
      annotationAfter, habsent]
    rfl
  · rw [Step.typeNameAwaited_after hpointTrivia, hpoint, declares?_of_ne_keyword (by decide)]
    rfl

end NamesInModule

end Context

/-! ## Places -/

namespace Progress.Place

variable {mode : Mode} {s : Step} {later : List Step} {l : Lexeme} {behind : List Lexeme}

theorem kind_of_namesInModule (h : Place mode s later l behind) (hl : l.shape = .word)
    (hbefore : s.before.NamesInModule) (hreserved : Keyword.isReserved s.text = false)
    (hparen : ∀ p ∈ later.head?, p.kind ≠ .leftParen) :
    s.kind = if s.text ∈ Keyword.moduleDirectives then .moduleKeyword else .identifier := by
  have hkind := Context.kind_of_word hl h.steps
  rw [← h.word, hbefore.wordKind_eq hreserved] at hkind
  by_cases hdirective : s.text ∈ Keyword.moduleDirectives
  · rw [if_pos hdirective] at hkind ⊢
    exact hkind
  rw [if_neg hdirective] at hkind ⊢
  by_cases hcall : Lookahead.opensCall behind = true
  · rw [if_pos hcall] at hkind
    obtain ⟨paren, rest, rfl, hleftParen⟩ := h.call hkind
    exact absurd hleftParen (hparen paren rfl)
  · rwa [if_neg hcall] at hkind

end Progress.Place

/-! ## Names -/

/-- A dotted name is read as identifiers joined by points exactly if no part of it is read as a
keyword. -/
theorem DottedName.qualifiedName_iff {names : List Step} (h : DottedName names)
    (hkinds : ∀ s ∈ names, s.isWord = true →
      s.kind = if s.text ∈ Keyword.moduleDirectives then .moduleKeyword else .identifier) :
    QualifiedName (names.map Step.kind) ↔
      ∀ s ∈ names, s.isWord = true → s.text ∉ Keyword.moduleDirectives := by
  constructor
  · intro hnames s hs hword hdirective
    have hkind := hkinds s hs hword
    rw [if_pos hdirective] at hkind
    rcases hnames.kind_of_mem (List.mem_map_of_mem hs) with h | h <;> rw [hkind] at h <;> cases h
  · intro hplain
    have hidentifier : ∀ s ∈ names, s.isWord = true → s.kind = .identifier := fun s hs hword =>
      (hkinds s hs hword).trans (if_neg (hplain s hs hword))
    clear hkinds hplain
    induction h with
    | word hword =>
      rw [List.map_singleton, hidentifier _ (List.mem_singleton_self _) hword]
      exact .name
    | qualified hword hpoint _ ih =>
      rw [List.forall_mem_cons, List.forall_mem_cons] at hidentifier
      rw [List.map_cons, List.map_cons, hidentifier.1 hword, hpoint]
      exact .qualified (ih hidentifier.2.2)

namespace ModuleNamesRead

variable {mode : Mode} {index : LineIndex} {start : Nat} {ls : List Lexeme}
  {earlier later : List Step} {s : Step}

theorem word_of_run (hls : ∀ l ∈ ls, l.Spelled)
    (hsplit : Progress.steps mode index ⟨.initial, 0⟩ (Occurrence.ofLexemes start ls) =
      earlier ++ s :: later) (hword : s.isWord = true) (htop : s.before.top = some .moduleBody)
    (hpart : s.kind ≠ .annotationPart) (htype : s.kind ≠ .className) :
    s.kind = .moduleKeyword ↔ s.text ∈ Keyword.moduleDirectives := by
  obtain ⟨l, behind, hl, h⟩ := NamesHonoured.exists_place_of_isWord hls hsplit hword
  have hkind := Context.kind_of_word hl h.steps
  rw [h.word]
  rw [hkind] at hpart htype ⊢
  constructor
  · intro hmodule
    rcases Reading.moduleKeyword_cases hmodule with ⟨-, hdirective⟩ | ⟨htop', -⟩ | ⟨htop', -⟩
    · exact hdirective
    · rw [htop] at htop'
      cases htop'
    · rw [htop] at htop'
      cases htop'
  · intro hdirective
    have hreserved := Keyword.isReserved_of_mem_moduleDirectives hdirective
    have hnames := Context.NamesInModule.of_wordKind htop hreserved hpart htype
    rw [hnames.wordKind_eq hreserved, if_pos hdirective]

theorem kind_of_part (hls : ∀ l ∈ ls, l.Spelled) {names : List Step} (h : DottedName names)
    (hsplit : Progress.steps mode index ⟨.initial, 0⟩ (Occurrence.ofLexemes start ls) =
      earlier ++ (names ++ later)) (hfirst : ∀ s ∈ names.head?, s.before.NamesInModule)
    (hreserved : ∀ s ∈ names, Keyword.isReserved s.text = false)
    (hparen : ∀ s ∈ later.head?, s.kind ≠ .leftParen) :
    ∀ s ∈ names, s.isWord = true →
      s.kind = if s.text ∈ Keyword.moduleDirectives then .moduleKeyword else .identifier := by
  have hlast : ∀ {earlier later : List Step} {s : Step},
      Progress.steps mode index ⟨.initial, 0⟩ (Occurrence.ofLexemes start ls) =
        earlier ++ s :: later → ∀ p ∈ earlier.getLast?, p.after = s.before :=
    fun hsplit => Progress.steps_history (R := fun done ctx => ∀ p ∈ done.getLast?, p.after = ctx)
      (fun done s _ _ => by simp) (by simp) hsplit
  induction h generalizing earlier with
  | @word s hword =>
    obtain ⟨l, behind, hl, hplace⟩ := NamesHonoured.exists_place_of_isWord hls hsplit hword
    rintro t ht -
    rw [List.mem_singleton.mp ht]
    exact hplace.kind_of_namesInModule hl (hfirst s rfl) (hreserved s (List.mem_singleton_self s))
      hparen
  | @qualified s point names hword hpoint rest ih =>
    rw [List.forall_mem_cons, List.forall_mem_cons] at hreserved
    obtain ⟨hs, -, hnames⟩ := hreserved
    obtain ⟨l, behind, hl, hplace⟩ := NamesHonoured.exists_place_of_isWord hls hsplit hword
    have hkind := hplace.kind_of_namesInModule hl (hfirst s rfl) hs (by
      rintro p hp
      cases hp
      rw [hpoint]
      decide)
    have hsplitPoint : Progress.steps mode index ⟨.initial, 0⟩ (Occurrence.ofLexemes start ls) =
        (earlier ++ [s]) ++ point :: (names ++ later) := by
      rw [hsplit, List.append_assoc]
      rfl
    have hsplitNames : Progress.steps mode index ⟨.initial, 0⟩ (Occurrence.ofLexemes start ls) =
        (earlier ++ [s, point]) ++ (names ++ later) := by
      rw [hsplit, List.append_assoc]
      rfl
    have hbefore : point.before = s.after := (hlast hsplitPoint s (by simp)).symm
    have hpart : s.kind ∈ [TokenKind.moduleKeyword, .identifier] := by
      rw [hkind]
      split <;> decide
    have hnext : ∀ next ∈ names.head?, next.before.NamesInModule := by
      intro next hhead
      obtain ⟨tail, rfl⟩ := List.head?_eq_some_iff.mp hhead
      rw [← hlast hsplitNames point (by simp)]
      exact (hfirst s rfl).after hpart hbefore hpoint
    rw [List.forall_mem_cons, List.forall_mem_cons]
    refine ⟨fun _ => hkind, fun hpointWord => ?_, ih hsplitNames hnext hnames⟩
    -- A point is no word.
    obtain ⟨l', behind', hl', hplace'⟩ :=
      NamesHonoured.exists_place_of_isWord hls hsplitPoint hpointWord
    have hmem := hplace'.kind_mem
    rw [hl', hpoint] at hmem
    exact absurd hmem (by decide)

theorem of_run (mode : Mode) (index : LineIndex) (hls : ∀ l ∈ ls, l.Spelled) (start : Nat) :
    ModuleNamesRead
      (Progress.steps mode index ⟨.initial, 0⟩ (Occurrence.ofLexemes start ls)) where
  word := fun _ _ _ hsplit => word_of_run hls hsplit
  name := by
    intro earlier names later hsplit hnames hfirst hreserved hparen
    rw [List.append_assoc] at hsplit
    have hkinds := kind_of_part hls hnames hsplit ?_ hreserved hparen
    · exact ⟨hkinds, hnames.qualifiedName_iff hkinds⟩
    intro s hs
    obtain ⟨htop, hpart, htype⟩ := hfirst s hs
    obtain ⟨tail, rfl⟩ := List.head?_eq_some_iff.mp hs
    have hword : s.isWord = true := by cases hnames <;> assumption
    obtain ⟨l, behind, hl, h⟩ := NamesHonoured.exists_place_of_isWord hls hsplit hword
    rw [Context.kind_of_word hl h.steps] at hpart htype
    have hs' := hreserved s List.mem_cons_self
    rw [h.word] at hs'
    exact .of_wordKind htop hs' hpart htype

end ModuleNamesRead

/-- **Words in modules** of a source that is read from any offset on: directly inside of a module
the words of directives are keywords, and a dotted name is read as identifiers joined by points
exactly if none of its parts is such a word. -/
theorem moduleNames_read (source : String) (offset : Nat) (stoppable : Bool) :
    let s := TokenStream.openAt source offset stoppable
    List.Forall₂ (Token.Shows source) (s.drain false).significant s.steps ∧
      ModuleNamesRead s.steps :=
  ⟨TokenStream.shows_steps source offset stoppable,
    ModuleNamesRead.of_run .whole _ (fun _ hl => Lexeme.spelled_of_mem_ofTextFrom hl) _⟩

/-- The steps of a module that exports a package whose name starts and ends with the word of a
directive. -/
def exportedDirectives : List Step :=
  (TokenStream.openAt "module m { exports to.acme.with; }" 0 false).steps

/-- A word in front of a point and a word behind a point are keywords, directly inside of a
module. -/
theorem keywords_at_points :
    ∃ (earlier middle later : List Step) (first last : Step),
      exportedDirectives = earlier ++ first :: middle ++ last :: later ∧
      (∀ s ∈ [first, last], s.isWord = true ∧ s.before.top = some .moduleBody ∧
        s.kind = .moduleKeyword) ∧
      (middle.head?.any fun s => s.kind = .dot) = true ∧
      (middle.getLast?.any fun s => s.kind = .dot) = true := by
  obtain ⟨first, last, h⟩ : ∃ first : 4 < exportedDirectives.length,
      ∃ last : 8 < exportedDirectives.length,
      let word := exportedDirectives.get ⟨4, first⟩
      let word' := exportedDirectives.get ⟨8, last⟩
      let middle := (exportedDirectives.take 8).drop 5
      exportedDirectives = exportedDirectives.take 4 ++ word :: middle ++
          word' :: exportedDirectives.drop 9 ∧
        (∀ s ∈ [word, word'], s.isWord = true ∧ s.before.top = some .moduleBody ∧
          s.kind = .moduleKeyword) ∧
        (middle.head?.any fun s => s.kind = .dot) = true ∧
        (middle.getLast?.any fun s => s.kind = .dot) = true := by
    decide +kernel
  exact ⟨_, _, _, _, _, h⟩

end JavaHighlight
