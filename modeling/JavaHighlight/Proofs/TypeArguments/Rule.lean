import JavaHighlight.Proofs.Lines.Spans
import JavaHighlight.Proofs.Names.Words
import JavaHighlight.Proofs.TypeArguments.Budget

/-!
# The rule for angle brackets

A `<` opens type arguments inside of type arguments, and behind certain tokens if the lexemes
ahead are found to close them (`TokenStream.readsLess_of_split`). The context remembers only the
kind of the last token and whether it was a modifier. That this says as much as the token itself
is an invariant of the steps in front (`Context.Remembers.mayOpenTypeArgs_eq`).
-/

namespace JavaHighlight

/-! ## Behind which tokens type arguments may open -/

def TokenKind.admitTypeArgs : List TokenKind := [
  .identifier, .className, .dot, .leftBrace, .rightBrace, .semicolon]

/-- Whether type arguments may open behind a token: a name, a point, the border of a block or a
statement, or a keyword that is a modifier. The word `default` is a modifier too, but counts as
a word of control flow. -/
def Token.admitsTypeArgs (source : String) (token : Token) : Bool :=
  token.kind ∈ TokenKind.admitTypeArgs ||
    token.kind.isKeyword && token.text source ∈ Keyword.modifiers &&
      token.text source ≠ "default"

/-- What the context remembers of a step. -/
def Step.admitsTypeArgs (s : Step) : Bool :=
  s.kind ∈ TokenKind.admitTypeArgs || s.kind = .keyword && s.text ∈ Keyword.modifiers

namespace Context

/-- The context knows the last step by its kind and by whether it was a modifier. -/
def Remembers (done : List Step) (ctx : Context) : Prop :=
  ctx.last = done.getLast?.map Step.kind ∧
    ctx.lastWasModifier = done.getLast?.any fun s => s.kind = .keyword && s.text ∈ Keyword.modifiers

theorem Remembers.step {done : List Step} {s : Step} (hs : s.kind.isTrivia = false) :
    Remembers (done ++ [s]) s.after := by
  have hkind : s.piece.kind.isTrivia = false := hs
  refine ⟨?_, ?_⟩
  · rw [List.getLast?_concat, s.last_after hs]
    rfl
  · rw [List.getLast?_concat]
    unfold Step.after observePiece observe
    rw [if_neg (by rw [hkind]; exact Bool.false_ne_true)]
    rfl

theorem Remembers.mayOpenTypeArgs_eq {done : List Step} {ctx : Context}
    (h : Remembers done ctx) :
    Reading.mayOpenTypeArgs ctx = done.getLast?.all Step.admitsTypeArgs := by
  unfold Reading.mayOpenTypeArgs
  rw [h.1, h.2]
  cases done.getLast? with
  | none => rfl
  | some s => exact Bool.or_comm _ _

end Context

/-! ## Steps and tokens -/

namespace Keyword

/-- Of the modifiers, `default` alone is a word of control flow. -/
theorem kind?_of_mem_modifiers {word : String} (h : word ∈ modifiers) :
    kind? word = some (if word = "default" then .keywordControl else .keyword) := by
  have key : ∀ word ∈ modifiers,
      kind? word = some (if word = "default" then .keywordControl else .keyword) := by decide
  exact key word h

theorem startsWord_of_mem_modifiers {word : String} (h : word ∈ modifiers) :
    startsWord word.toList = true := by
  have key : ∀ word ∈ modifiers, startsWord word.toList = true := by decide +kernel
  exact key word h

end Keyword

namespace Context

variable {mode : Mode} {ctx : Context} {cs : List Char} {l : Lexeme} {ahead : List Lexeme}
  {s : Step}

theorem text_ne_nil_of_mem_lexemeSteps (hl : l ∈ Lexeme.ofText cs)
    (h : s ∈ ctx.lexemeSteps mode l ahead) : s.piece.text ≠ [] := by
  have hpiece := piece_mem_of_mem_steps h
  have hpos := (Reading.length_pieces (Lexeme.inText_of_mem_ofText hl)
    (Lexeme.length_pos_of_mem_ofText hl) mode ctx ahead).1 _ hpiece
  rw [(Reading.text_pieces hl mode ctx ahead).2 _ hpiece] at hpos
  intro hnil
  rw [hnil, Text.byteSize_nil] at hpos
  exact Nat.lt_irrefl 0 hpos

/-- A modifier that is read as a keyword of some kind is a plain one, unless it is `default`. -/
theorem keyword_iff_of_mem_modifiers (hl : l ∈ Lexeme.ofText cs)
    (h : s ∈ ctx.lexemeSteps mode l ahead) (hkind : s.kind.isKeyword = true)
    (htext : s.text ∈ Keyword.modifiers) : s.kind = .keyword ↔ s.text ≠ "default" := by
  have hangles : l.shape.closingAngles = 0 := by
    by_contra hangles
    rcases Shape.kind_of_closingAngles hangles (kind_mem_of_mem_lexemeSteps h) with h | h <;>
    · rw [h] at hkind
      cases hkind
  obtain ⟨hsteps, -, hlexeme, -⟩ := lexemeSteps_eq_singleton hangles h
  have hword : l.shape = .word := by
    have hspelled : l.Spelled := .inr ⟨cs, hl⟩
    rw [hspelled.isWord_iff, ← hlexeme]
    have hstarts := Keyword.startsWord_of_mem_modifiers htext
    rwa [Step.text, String.toList_ofList] at hstarts
  have hsame : l.word = s.text := by rw [Lexeme.word, Step.text, hlexeme]
  have hread := kind_of_word hword hsteps
  rw [hsame] at hread
  cases hannotation : ctx.awaitsAnnotationName with
  | true =>
    rw [hread, Reading.wordKind_of_awaitsAnnotationName hannotation] at hkind
    cases hkind
  | false =>
    rw [hread, Reading.wordKind_of_kind? hannotation (Keyword.kind?_of_mem_modifiers htext)]
    split_ifs with hdefault
    · exact iff_of_false (by decide) fun hne => hne hdefault
    · exact iff_of_true rfl hdefault

/-- A token that shows a step tells as much about it as the context remembers. -/
theorem admitsTypeArgs_of_shows {source : String} {token : Token}
    (hl : l ∈ Lexeme.ofText cs) (h : s ∈ ctx.lexemeSteps mode l ahead)
    (hshows : token.Shows source s) : token.admitsTypeArgs source = s.admitsTypeArgs := by
  have htext := hshows.text (text_ne_nil_of_mem_lexemeSteps hl h)
  unfold Token.admitsTypeArgs Step.admitsTypeArgs
  rw [hshows.kind, htext]
  congr 1
  rw [Bool.eq_iff_iff]
  simp only [Bool.and_eq_true, decide_eq_true_eq]
  constructor
  · rintro ⟨⟨hkeyword, hmodifier⟩, hdefault⟩
    exact ⟨(keyword_iff_of_mem_modifiers hl h hkeyword hmodifier).mpr hdefault, hmodifier⟩
  · rintro ⟨hkind, hmodifier⟩
    have hkeyword : s.kind.isKeyword = true := by rw [hkind]; rfl
    exact ⟨⟨hkeyword, hmodifier⟩,
      (keyword_iff_of_mem_modifiers hl h hkeyword hmodifier).mp hkind⟩

end Context

namespace TokenStream

variable {source : String} {v : Visit}

theorem mem_ofText_of_mem_visits (hv : v ∈ (openAt source 0 false).visits) :
    v.lexeme ∈ Lexeme.ofText source.toList := by
  have hmem := Progress.mem_of_mem_visits hv
  rw [upcoming_openAt (List.nil_append source.toList).symm (Nat.zero_min _).symm] at hmem
  have hlexeme := List.mem_map_of_mem (f := Occurrence.lexeme) hmem
  rwa [Occurrence.map_lexeme_ofLexemes] at hlexeme

theorem admitsTypeArgs_of_mem_visits (hv : v ∈ (openAt source 0 false).visits) :
    List.Forall₂ (fun token s => Token.admitsTypeArgs source token = Step.admitsTypeArgs s)
      ((v.emission .whole (openAt source 0 false).index).tokens.filter (!·.isTrivia))
      (v.steps .whole) := by
  have hshows : List.Forall₂ (Token.Shows source)
      ((v.emission .whole (openAt source 0 false).index).tokens.filter (!·.isTrivia))
      (v.steps .whole) :=
    Progress.shows_emitPieces
      (Progress.shownBy_emit (standsIn_of_mem_upcoming (Progress.mem_of_mem_visits hv)))
  have hmem := (List.forall₂_and_left (p := fun s => s ∈ v.steps .whole) _ _).mpr
    ⟨fun _ hs => hs, hshows.flip⟩
  exact hmem.flip.imp fun token s h =>
    Context.admitsTypeArgs_of_shows (mem_ofText_of_mem_visits hv) h.1 h.2

theorem remembers_of_split {earlier later : List Visit}
    (hsplit : (openAt source 0 false).visits = earlier ++ v :: later)
    (hless : v.lexeme.shape = .symbol .less) :
    Context.Remembers (earlier.flatMap (·.steps .whole)) v.context := by
  obtain ⟨s, hsteps, hbefore, -⟩ := Context.exists_script_cons (by rw [hless]; rfl)
    (by rw [hless]; simp) (by rw [hless]; decide) .whole v.context v.occurrence.ahead
  have hplace : (openAt source 0 false).steps =
      earlier.flatMap (·.steps .whole) ++ s :: later.flatMap (·.steps .whole) := by
    show (openAt source 0 false).visits.flatMap (·.steps .whole) = _
    rw [hsplit, List.flatMap_append, List.flatMap_cons]
    congr 1
    exact congrArg (· ++ later.flatMap (·.steps .whole)) hsteps
  rw [← hbefore]
  exact Progress.steps_history (R := Context.Remembers)
    (fun done s htrivia _ => Context.Remembers.step htrivia) ⟨rfl, rfl⟩ hplace

theorem all_getLast?_of_forall₂ {α β : Type} {f : α → Bool} {g : β → Bool} {xs : List α}
    {ys : List β} (h : List.Forall₂ (fun x y => f x = g y) xs ys) :
    xs.getLast?.all f = ys.getLast?.all g := by
  have hmap : xs.map f = ys.map g := by
    induction h with
    | nil => rfl
    | cons hxy _ ih => rw [List.map_cons, List.map_cons, hxy, ih]
  calc xs.getLast?.all f = (xs.map f).getLast?.all id := by
        rw [List.getLast?_map, Option.all_map]
        rfl
    _ = (ys.map g).getLast?.all id := by rw [hmap]
    _ = ys.getLast?.all g := by
        rw [List.getLast?_map, Option.all_map]
        rfl

/-- Whether type arguments may open at a place is told by the last significant token in front
of it. -/
theorem mayOpenTypeArgs_of_split {earlier later : List Visit}
    (hsplit : (openAt source 0 false).visits = earlier ++ v :: later)
    (hless : v.lexeme.shape = .symbol .less) :
    Reading.mayOpenTypeArgs v.context =
      ((earlier.flatMap fun v => (v.emission .whole (openAt source 0 false).index).tokens).filter
        (!·.isTrivia)).getLast?.all (Token.admitsTypeArgs source) := by
  have hadmits : List.Forall₂
      (fun token s => Token.admitsTypeArgs source token = Step.admitsTypeArgs s)
      ((earlier.flatMap fun v => (v.emission .whole (openAt source 0 false).index).tokens).filter
        (!·.isTrivia))
      (earlier.flatMap (·.steps .whole)) := by
    rw [List.filter_flatMap]
    refine forall₂_flatMap fun v hv => admitsTypeArgs_of_mem_visits ?_
    rw [hsplit]
    exact List.mem_append_left _ hv
  rw [(remembers_of_split hsplit hless).mayOpenTypeArgs_eq]
  exact (all_getLast?_of_forall₂ hadmits).symm

end TokenStream

/-! ## The rule -/

/-- A lexeme is read as one token of a kind, and at most one problem is found in it. -/
structure Visit.ReadAs (v : Visit) (index : LineIndex) (kind : TokenKind)
    (problem : Option Problem) : Prop where
  token : ∃ token, (v.emission .whole index).tokens = [token] ∧ token.kind = kind ∧
    token.span = v.occurrence.span ∧ token.flags.error = problem.isSome
  diagnostics : (v.emission .whole index).diagnostics =
    problem.toList.map fun problem => ⟨v.occurrence.span, problem⟩

namespace Visit.ReadAs

variable {v : Visit} {index : LineIndex} {kind kind' : TokenKind}
  {problem problem' : Option Problem}

theorem unique (h : v.ReadAs index kind problem) (h' : v.ReadAs index kind' problem') :
    kind = kind' ∧ problem = problem' := by
  obtain ⟨token, htoken, hkind, -⟩ := h.token
  obtain ⟨token', htoken', hkind', -⟩ := h'.token
  have hsame : token = token' := List.singleton_inj.mp (htoken.symm.trans htoken')
  have hproblems := h.diagnostics.symm.trans h'.diagnostics
  refine ⟨by rw [← hkind, ← hkind', hsame], ?_⟩
  cases problem <;> cases problem' <;> simp_all

theorem iff (h : v.ReadAs index kind problem) (kind' : TokenKind) (problem' : Option Problem) :
    v.ReadAs index kind' problem' ↔ kind = kind' ∧ problem = problem' := by
  constructor
  · exact h.unique
  · rintro ⟨rfl, rfl⟩
    exact h

theorem of_reading {flags : Flags}
    (h : v.reading .whole = ⟨[⟨kind, v.lexeme.text, v.lexeme.length, flags, false⟩], problem⟩)
    (hcloses : Context.closes? kind = none) (hflags : flags.error = problem.isSome) :
    v.ReadAs index kind problem := by
  have hissue : v.progress.context.issue? kind = none := by
    unfold Context.issue?
    rw [hcloses]
  unfold Visit.reading Visit.context Visit.lexeme at h
  constructor
  · unfold Visit.emission Progress.emit
    rw [h]
    refine ⟨_, rfl, rfl, rfl, ?_⟩
    show (flags.error || (v.progress.context.issue? kind).isSome) = problem.isSome
    rw [hissue, hflags]
    exact Bool.or_false _
  · unfold Visit.emission Progress.emit
    rw [h]
    show problem.toList.map _ ++ ((v.progress.context.issue? kind).toList.map _ ++ []) = _
    rw [hissue]
    exact List.append_nil _

end Visit.ReadAs

namespace TokenStream

/-- The tokens of some of the lexemes of a source. -/
def tokensOf (source : String) (visits : List Visit) : List Token :=
  visits.flatMap fun v => (v.emission .whole (openAt source 0 false).index).tokens

/-- Whether type arguments may open behind the lexemes in front of a place: there are no tokens
but trivia, or the last one of the others admits type arguments. -/
def MayOpenBehind (source : String) (earlier : List Visit) : Prop :=
  ((tokensOf source earlier).filter (!·.isTrivia)).getLast?.all (Token.admitsTypeArgs source)

/-- How a `<` of a source is read. -/
structure ReadsLess (source : String) (earlier : List Visit) (v : Visit) (later : List Visit) :
    Prop where
  tokens : (tokenize source).tokens =
    tokensOf source earlier ++ tokensOf source [v] ++ tokensOf source later
  diagnostics : ∃ before after, (tokenize source).diagnostics =
    before ++ (v.emission .whole (openAt source 0 false).index).diagnostics ++ after
  opens : v.ReadAs (openAt source 0 false).index .genericOpen none ↔
    v.context.top = some .typeArgs ∨
      MayOpenBehind source earlier ∧ Lookahead.angle v.occurrence.ahead = .opensTypeArgs
  unresolved : v.ReadAs (openAt source 0 false).index .operator (some .unresolvedAngle) ↔
    MayOpenBehind source earlier ∧ Lookahead.angle v.occurrence.ahead = .undecided
  otherwise : v.ReadAs (openAt source 0 false).index .operator none ↔
    v.context.top ≠ some .typeArgs ∧
      (MayOpenBehind source earlier → Lookahead.angle v.occurrence.ahead = .comparison)

variable {source : String} {v : Visit} {earlier later : List Visit}

theorem tokens_of_split (hsplit : (openAt source 0 false).visits = earlier ++ v :: later) :
    (tokenize source).tokens =
      tokensOf source earlier ++ tokensOf source [v] ++ tokensOf source later := by
  have hrun : (tokenize source).tokens = tokensOf source (openAt source 0 false).visits := by
    rw [tokenize_eq_drain, drain_openAt]
    exact Progress.tokens_run ..
  rw [hrun, hsplit, List.append_assoc]
  unfold tokensOf
  rw [List.flatMap_append, List.flatMap_cons, List.flatMap_singleton]

theorem diagnostics_of_split (hsplit : (openAt source 0 false).visits = earlier ++ v :: later) :
    ∃ before after, (tokenize source).diagnostics =
      before ++ (v.emission .whole (openAt source 0 false).index).diagnostics ++ after := by
  have hrun := Progress.diagnostics_run .whole (openAt source 0 false).index
    (openAt source 0 false).progress (openAt source 0 false).upcoming
  change _ = (openAt source 0 false).visits.flatMap _ at hrun
  rw [hsplit, List.flatMap_append, List.flatMap_cons] at hrun
  rw [tokenize_eq_drain, drain_openAt]
  dsimp only
  rw [hrun, List.append_assoc, List.append_assoc, ← List.append_assoc]
  exact ⟨_, _, rfl⟩

theorem angle_ne_undecided_of_mem_visits (hv : v ∈ (openAt source 0 false).visits)
    (hless : v.lexeme.shape = .symbol .less) (htop : v.context.top = some .typeArgs) :
    Lookahead.angle v.occurrence.ahead ≠ .undecided := by
  have hpromised := Progress.visits_of_kept
    (Context.keptByReading_promisedWithinBudget .whole) (openAt source 0 false).progress
    (Context.promisedWithinBudget_initial _) (openAt source 0 false).index _ v hv
  have htrivia : v.lexeme.isTrivia = false := by
    rw [Lexeme.isTrivia, hless]
    rfl
  rw [htrivia, if_neg Bool.false_ne_true] at hpromised
  exact hpromised.angle_ne_undecided hless htop

/-- **The rule for `<`.** It opens type arguments inside of others, and where they may open if
the lexemes ahead are found to close them; where they may open and nothing is found it is an
operator with a diagnostic, and everywhere else an operator. -/
theorem readsLess_of_split (hsplit : (openAt source 0 false).visits = earlier ++ v :: later)
    (hless : v.lexeme.shape = .symbol .less) : ReadsLess source earlier v later := by
  have hreading : v.reading .whole = Reading.ofLess v.context v.lexeme v.occurrence.ahead :=
    Reading.ofLexeme_of_less hless .whole _ _
  have hmay : MayOpenBehind source earlier ↔ Reading.mayOpenTypeArgs v.context = true := by
    rw [mayOpenTypeArgs_of_split hsplit hless]
    rfl
  have hundecided := angle_ne_undecided_of_mem_visits (v := v)
    (by rw [hsplit]; exact List.mem_append_right _ List.mem_cons_self) hless
  -- Any one way in which the `<` is read rules out the others.
  suffices h : ∃ kind problem, v.ReadAs (openAt source 0 false).index kind problem ∧
      ((kind = .genericOpen ∧ problem = none) ↔ v.context.top = some .typeArgs ∨
        MayOpenBehind source earlier ∧ Lookahead.angle v.occurrence.ahead = .opensTypeArgs) ∧
      ((kind = .operator ∧ problem = some .unresolvedAngle) ↔
        MayOpenBehind source earlier ∧ Lookahead.angle v.occurrence.ahead = .undecided) ∧
      ((kind = .operator ∧ problem = none) ↔ v.context.top ≠ some .typeArgs ∧
        (MayOpenBehind source earlier →
          Lookahead.angle v.occurrence.ahead = .comparison)) by
    obtain ⟨kind, problem, hread, hopens, hunresolved, hotherwise⟩ := h
    exact {
      tokens := tokens_of_split hsplit
      diagnostics := diagnostics_of_split hsplit
      opens := (hread.iff _ _).trans hopens
      unresolved := (hread.iff _ _).trans hunresolved
      otherwise := (hread.iff _ _).trans hotherwise }
  unfold Reading.ofLess at hreading
  rw [hmay]
  by_cases htop : v.context.top = some .typeArgs
  · rw [if_pos htop] at hreading
    refine ⟨_, _, .of_reading hreading rfl rfl, ?_⟩
    simp [htop, hundecided htop]
  rw [if_neg htop] at hreading
  by_cases hopen : Reading.mayOpenTypeArgs v.context = true
  · rw [if_pos hopen] at hreading
    cases hangle : Lookahead.angle v.occurrence.ahead with
    | opensTypeArgs | comparison | undecided =>
      rw [hangle] at hreading
      refine ⟨_, _, .of_reading hreading rfl rfl, ?_⟩
      simp [htop, hopen, Piece.ofLexeme]
  · rw [if_neg hopen] at hreading
    refine ⟨_, _, .of_reading hreading rfl rfl, ?_⟩
    simp [htop, hopen]

theorem split_get (visits : List Visit) (i : Fin visits.length) :
    visits = visits.take i ++ visits.get i :: visits.drop (i + 1) := by
  rw [List.get_eq_getElem, List.getElem_cons_drop, List.take_append_drop]

/-- The `<` behind the name of a type. -/
theorem readsLess_of_split_name :
    ∃ earlier v later, (openAt "List<A> x;" 0 false).visits = earlier ++ v :: later ∧
      v.lexeme.shape = .symbol .less ∧ ReadsLess "List<A> x;" earlier v later :=
  have hsplit := split_get (openAt "List<A> x;" 0 false).visits ⟨1, by decide +kernel⟩
  have hless : ((openAt "List<A> x;" 0 false).visits.get ⟨1, by decide +kernel⟩).lexeme.shape =
      .symbol .less := by decide +kernel
  ⟨_, _, _, hsplit, hless, readsLess_of_split hsplit hless⟩

/-- A member of an interface that is generic and has a body. -/
def defaultMember : String :=
  "interface I { default <T> void f() {} }"

/-- Behind `default`, a modifier that is read as a keyword, type arguments do not open: the `<`
is an operator although the lexemes ahead close it. -/
theorem operator_behind_default :
    ∃ earlier v later, (openAt defaultMember 0 false).visits = earlier ++ v :: later ∧
      v.lexeme.shape = .symbol .less ∧
      (((tokensOf defaultMember earlier).filter (!·.isTrivia)).getLast?.any fun previous =>
        previous.kind.isKeyword && previous.text defaultMember ∈ Keyword.modifiers) = true ∧
      Lookahead.angle v.occurrence.ahead = .opensTypeArgs ∧
      v.ReadAs (openAt defaultMember 0 false).index .operator none ∧
      (tokenize defaultMember).diagnostics = [] := by
  have hsplit := split_get (openAt defaultMember 0 false).visits ⟨8, by decide +kernel⟩
  have hreading : ((openAt defaultMember 0 false).visits.get ⟨8, by decide +kernel⟩).reading
      .whole = .plain ⟨.symbol .less, ['<']⟩ .operator := by decide +kernel
  refine ⟨_, _, _, hsplit, ?_, ?_, ?_, .of_reading hreading rfl rfl, ?_⟩ <;> decide +kernel

end TokenStream

end JavaHighlight
