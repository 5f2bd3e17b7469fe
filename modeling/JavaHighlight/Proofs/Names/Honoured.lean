import JavaHighlight.Proofs.Names.Modules

/-!
# What was found ahead comes

Annotations, functions, records and modules are told by the lexemes ahead, which are read later
and in other contexts. They are read as what they were taken for (`names_honoured`): each keyword
and each name that was read because of what comes next is followed by just that, and only the
header of a module opens the body of one.
-/

namespace JavaHighlight

def Step.isWord (s : Step) : Bool :=
  startsWord s.piece.text

structure Step.IsModuleKeyword (s : Step) (text : String) : Prop where
  kind : s.kind = .moduleKeyword
  text : s.text = text

/-- What comes behind a word or an `@` among consecutive steps is what it was read for. -/
structure NamesHonoured (steps : List Step) : Prop where
  /-- The `@` of an annotation stands in front of a part of its name. -/
  annotation : ∀ earlier s later, steps = earlier ++ s :: later →
    s.kind = .annotationPart → s.text = "@" →
      ∃ name rest, later = name :: rest ∧ name.kind = .annotationPart ∧ name.isWord = true
  /-- Any other `@` that is no error stands in front of `interface`, and a word behind that is
  the name of a type unless it is reserved. -/
  interface : ∀ earlier s later, steps = earlier ++ s :: later →
    s.kind = .keyword → s.text = "@" →
      ∃ word rest, later = word :: rest ∧ word.kind = .keyword ∧ word.text = "interface" ∧
        ∀ name rest', rest = name :: rest' → name.isWord = true →
          Keyword.isReserved name.text = false → name.kind = .className
  /-- The name of a function stands in front of a parenthesis. -/
  call : ∀ earlier s later, steps = earlier ++ s :: later → s.kind = .functionName →
    ∃ paren rest, later = paren :: rest ∧ paren.kind = .leftParen
  /-- The keyword `record` declares a type, unless it stands behind a point. -/
  record : ∀ earlier s later, steps = earlier ++ s :: later →
    s.kind = .keyword → s.text = "record" → (∀ p ∈ earlier.getLast?, p.kind ≠ .dot) →
      ∃ name next rest, later = name :: next :: rest ∧ name.kind = .className ∧
        (next.text = "(" ∨ next.text = "<")
  /-- The keyword `open` stands in front of the keyword `module`. -/
  opened : ∀ earlier s later, steps = earlier ++ s :: later → s.IsModuleKeyword "open" →
    ∃ word rest, later = word :: rest ∧ word.IsModuleKeyword "module"
  /-- The keyword `module` stands in front of the name and the body of a module. -/
  module : ∀ earlier s later, steps = earlier ++ s :: later → s.IsModuleKeyword "module" →
    ∃ names brace rest, later = names ++ brace :: rest ∧ QualifiedName (names.map Step.kind) ∧
      brace.kind = .leftBrace ∧ brace.Opens .moduleBody
  /-- Nothing else opens the body of a module. -/
  body : ∀ earlier s later, steps = earlier ++ s :: later → s.Opens .moduleBody →
    s.kind = .leftBrace ∧
      ∃ front word names, earlier = front ++ word :: names ∧ word.IsModuleKeyword "module" ∧
        QualifiedName (names.map Step.kind)
  /-- Any other keyword of modules stands directly inside of such a body. -/
  directive : ∀ earlier s later, steps = earlier ++ s :: later →
    s.kind = .moduleKeyword → s.text ≠ "open" → s.text ≠ "module" →
      ∃ front brace between, earlier = front ++ brace :: between ∧ brace.Opens .moduleBody ∧
        s.before.regions = brace.after.regions ∧
        ∀ b ∈ between, brace.after.regions <:+ b.before.regions

/-! ## The context behind a word -/

namespace Step

variable {s : Step}

theorem awaitsAnnotationName_after (hkind : s.kind = .annotationPart) (htext : s.text = "@") :
    s.after.awaitsAnnotationName = true := by
  rw [Context.awaitsAnnotationName, annotationName_after (by rw [hkind]; rfl), hkind, htext]
  rfl

theorem not_awaitsAnnotationName_after (hkind : s.kind = .keyword ∨ s.kind = .moduleKeyword) :
    s.after.awaitsAnnotationName = false := by
  have htrivia : s.kind.isTrivia = false := by
    rcases hkind with hkind | hkind <;> rw [hkind] <;> rfl
  rw [Context.awaitsAnnotationName, annotationName_after htrivia]
  rcases hkind with hkind | hkind <;> rw [hkind] <;> rfl

theorem typeNameAwaited_after_keyword (hkind : s.kind = .keyword)
    (hlast : s.before.last ≠ some .dot) (htext : (Context.declaredBody? s.text).isSome = true) :
    s.after.typeNameAwaited = true := by
  rw [typeNameAwaited_after (by rw [hkind]; rfl), Context.declares?, if_pos ⟨hkind, hlast⟩]
  exact htext

end Step

/-! ## Symbols and words by their kinds -/

namespace Shape

theorem eq_word_of_kind {kind : TokenKind} (hkind : kind ∈ [TokenKind.functionName, .moduleKeyword])
    {shape : Shape} (h : kind ∈ shape.kinds) : shape = .word := by
  cases shape with
  | word => rfl
  | symbol s =>
    have key : ∀ s ∈ Symbol.all, ∀ kind ∈ [TokenKind.functionName, .moduleKeyword],
        kind ∉ s.kinds := by decide
    exact absurd h (key s s.mem_all kind hkind)
  | integer radix =>
    revert h
    revert kind
    cases radix <;> decide
  | _ =>
    revert h
    revert kind
    decide

theorem eq_word_or_atSign_of_kind {kind : TokenKind}
    (hkind : kind ∈ [TokenKind.annotationPart, .keyword]) {shape : Shape}
    (h : kind ∈ shape.kinds) : shape = .word ∨ shape = .symbol .atSign := by
  cases shape with
  | word => exact .inl rfl
  | symbol s =>
    have key : ∀ s ∈ Symbol.all, ∀ kind ∈ [TokenKind.annotationPart, .keyword],
        kind ∈ s.kinds → s = .atSign := by decide
    exact .inr (congrArg Shape.symbol (key s s.mem_all kind hkind h))
  | integer radix =>
    revert h
    revert kind
    cases radix <;> decide
  | _ =>
    revert h
    revert kind
    decide

end Shape

namespace Lookahead

theorem exists_word_of_annotationWord? {ahead : List Lexeme} {word : String}
    (h : annotationWord? ahead = some word) :
    ∃ l ls, ahead = l :: ls ∧ l.shape = .word ∧ l.word = word := by
  obtain ⟨l, hl, hword⟩ := Option.map_eq_some_iff.mp h
  obtain ⟨hhead, hshape⟩ := Option.filter_eq_some_iff.mp hl
  obtain ⟨ls, hls⟩ := List.head?_eq_some_iff.mp hhead
  exact ⟨l, ls, hls, of_decide_eq_true hshape, hword⟩

end Lookahead

namespace Context

variable {mode : Mode} {ctx : Context} {l : Lexeme} {ahead : List Lexeme} {s : Step}

theorem annotationWord?_of_atSign (hl : l.shape = .symbol .atSign)
    (h : s ∈ ctx.lexemeSteps mode l ahead) :
    (s.kind = .annotationPart → ∃ word, Lookahead.annotationWord? ahead = some word) ∧
      (s.kind = .keyword → Lookahead.annotationWord? ahead = some "interface") := by
  have hpiece := piece_mem_of_mem_steps h
  rw [Reading.ofLexeme, hl] at hpiece
  change s.piece ∈ (Reading.ofAtSign l ahead).pieces at hpiece
  unfold Reading.ofAtSign at hpiece
  split at hpiece
  · next word hword =>
    refine ⟨fun _ => ⟨word, hword⟩, fun hkind => ?_⟩
    rw [Step.kind, List.mem_singleton.mp hpiece] at hkind
    change (if word = "interface" then TokenKind.keyword else .annotationPart) = _ at hkind
    split_ifs at hkind with hinterface
    rw [hword, hinterface]
  · rw [Step.kind, List.mem_singleton.mp hpiece]
    exact ⟨fun hkind => TokenKind.noConfusion hkind, fun hkind => TokenKind.noConfusion hkind⟩

end Context

/-! ## Places -/

namespace Lexeme

variable {l : Lexeme}

theorem startsWord_of_closingAngles (h : l.Spelled) (hangles : l.shape.closingAngles ≠ 0)
    {mode : Mode} {ctx : Context} {ahead : List Lexeme} {piece : Piece}
    (hpiece : piece ∈ (Reading.ofLexeme mode ctx l ahead).pieces) :
    startsWord piece.text = false := by
  have hangle : isWordStart '>' = false := by decide +kernel
  have hreplicate : ∀ n, startsWord (List.replicate n '>') = false := by
    intro n
    cases n with
    | zero => rfl
    | succ n => exact hangle
  have htext : l.text = List.replicate l.shape.closingAngles '>' := by
    cases hl : l.shape with
    | symbol s =>
      rw [hl] at hangles
      rw [h.text_of_symbol hl, Reading.spelling_of_closingAngles hangles]
      rfl
    | _ => rw [hl] at hangles; exact absurd rfl hangles
  rw [Reading.ofLexeme_of_closingAngles hangles] at hpiece
  rcases Reading.pieces_ofClosingAngles ctx l with hpieces | ⟨closing, -, -, hpieces⟩
  · rw [hpieces, List.mem_singleton] at hpiece
    rw [hpiece]
    show startsWord l.text = false
    rw [htext]
    exact hreplicate _
  · rw [hpieces, List.mem_append] at hpiece
    rcases hpiece with hpiece | hpiece
    · rw [List.eq_of_mem_replicate hpiece]
      exact hreplicate 1
    · split at hpiece
      · rw [List.mem_singleton.mp hpiece]
        exact hreplicate _
      · cases hpiece

end Lexeme

/-- All lexemes from a place on are lexemes of a text. -/
def AllSpelled (_ : Context) (ahead : List Lexeme) : Prop :=
  ∀ l ∈ ahead, l.Spelled

theorem keptByReading_allSpelled (mode : Mode) : KeptByReading mode AllSpelled := by
  intro ctx l ahead h
  split_ifs at h
  · exact h
  · exact (List.forall_mem_cons.mp h).2

namespace Progress.Place

variable {mode : Mode} {s : Step} {later : List Step} {l : Lexeme} {behind : List Lexeme}

theorem shape_of_atSign (h : Place mode s later l behind) (hl : l.Spelled) (htext : s.text = "@")
    (hkind : s.kind ∈ [TokenKind.annotationPart, .keyword]) : l.shape = .symbol .atSign := by
  have hletter : isWordStart '@' = false := by decide +kernel
  refine (Shape.eq_word_or_atSign_of_kind hkind h.kind_mem).resolve_left fun hword => ?_
  have hstarts := hl.isWord_iff.mp hword
  have htext' : l.text = ['@'] := by
    rw [← h.text, ← String.toList_ofList (l := s.piece.text)]
    exact congrArg String.toList htext
  rw [htext'] at hstarts
  change isWordStart '@' = true at hstarts
  rw [hletter] at hstarts
  cases hstarts

theorem annotation (h : Place mode s later l behind) (hls : ∀ l' ∈ l :: behind, l'.Spelled)
    (hkind : s.kind = .annotationPart) (htext : s.text = "@") :
    ∃ name rest, later = name :: rest ∧ name.kind = .annotationPart ∧ name.isWord = true := by
  rw [List.forall_mem_cons] at hls
  have hl := h.shape_of_atSign hls.1 htext (by rw [hkind]; decide)
  obtain ⟨word, hword⟩ := (Context.annotationWord?_of_atSign hl h.mem).1 hkind
  obtain ⟨w, rest, rfl, hw, -⟩ := Lookahead.exists_word_of_annotationWord? hword
  obtain ⟨name, -, -, hname, hnameText, hscript⟩ :=
    Context.exists_script_word hw mode s.after rest
  rw [Reading.wordKind_of_awaitsAnnotationName (Step.awaitsAnnotationName_after hkind htext)]
    at hname
  refine ⟨name, _, h.later.trans hscript, hname, ?_⟩
  rw [Step.isWord, hnameText]
  exact (hls.2 w List.mem_cons_self).isWord_iff.mp hw

theorem interface (h : Place mode s later l behind) (hl : l.Spelled) (hkind : s.kind = .keyword)
    (htext : s.text = "@") :
    ∃ word rest, later = word :: rest ∧ word.kind = .keyword ∧ word.text = "interface" ∧
      word.after.awaitsAnnotationName = false ∧ word.after.typeNameAwaited = true := by
  have hat := h.shape_of_atSign hl htext (by rw [hkind]; decide)
  have hinterface := (Context.annotationWord?_of_atSign hat h.mem).2 hkind
  obtain ⟨w, rest, rfl, hw, hword⟩ := Lookahead.exists_word_of_annotationWord? hinterface
  obtain ⟨word, -, hbefore, hwordKind, hwordText, hscript⟩ :=
    Context.exists_script_word hw mode s.after rest
  have hkind' : Keyword.kind? w.word = some .keyword := by rw [hword]; decide
  rw [Reading.wordKind_of_kind? (Step.not_awaitsAnnotationName_after (.inl hkind)) hkind']
    at hwordKind
  have htext' : word.text = "interface" := (congrArg String.ofList hwordText).trans hword
  have hlast : word.before.last ≠ some .dot := by
    rw [hbefore, Step.last_after (by rw [hkind]; rfl), hkind]
    decide
  exact ⟨word, _, h.later.trans hscript, hwordKind, htext',
    Step.not_awaitsAnnotationName_after (.inl hwordKind),
    Step.typeNameAwaited_after_keyword hwordKind hlast (by rw [htext']; decide)⟩

theorem call (h : Place mode s later l behind) (hkind : s.kind = .functionName) :
    ∃ paren rest, later = paren :: rest ∧ paren.kind = .leftParen := by
  have hkind' := h.kind_mem
  rw [hkind] at hkind'
  have hl := Shape.eq_word_of_kind (by decide) hkind'
  have hcall := Reading.opensCall_of_functionName
    ((Context.kind_of_word hl h.steps).symm.trans hkind)
  cases behind with
  | nil => cases hcall
  | cons next behind =>
    have hshape : next.shape = .symbol .leftParen := of_decide_eq_true hcall
    obtain ⟨paren, -, -, hparen, -, hscript⟩ := Context.exists_script_cons (l := next)
      (by rw [hshape]; rfl) (by rw [hshape]; simp) (by rw [hshape]; decide) mode s.after behind
    rw [hshape] at hparen
    exact ⟨paren, _, h.later.trans hscript, List.mem_singleton.mp hparen⟩

theorem record (h : Place mode s later l behind) (hls : ∀ l' ∈ l :: behind, l'.Spelled)
    (hkind : s.kind = .keyword) (htext : s.text = "record") (hlast : s.before.last ≠ some .dot) :
    ∃ name next rest, later = name :: next :: rest ∧ name.kind = .className ∧
      (next.text = "(" ∨ next.text = "<") := by
  rw [List.forall_mem_cons] at hls
  have hl : l.shape = .word := by
    refine (Shape.eq_word_or_atSign_of_kind (by rw [hkind]; decide) h.kind_mem).resolve_right
      fun hat => ?_
    have hword := hls.1.word_of_symbol hat
    rw [← h.word, htext] at hword
    exact absurd hword (by decide)
  have hwordKind := (Context.kind_of_word hl h.steps).symm.trans hkind
  rw [← h.word, htext] at hwordKind
  have hheader := Reading.recordHeader_of_keyword hwordKind
  match behind, hheader with
  | name :: next :: ls, hheader =>
    rw [Lookahead.recordHeader, Bool.and_eq_true, Bool.or_eq_true] at hheader
    obtain ⟨hname, hnext⟩ := hheader
    have hnameWord : name.shape = .word := of_decide_eq_true (Bool.and_eq_true_iff.mp hname).1
    have hreserved : Keyword.isReserved name.word = false := by
      simpa [Lexeme.isName] using (Bool.and_eq_true_iff.mp hname).2
    obtain ⟨first, -, -, hfirst, -, hscript⟩ :=
      Context.exists_script_word hnameWord mode s.after (next :: ls)
    rw [Reading.wordKind_of_typeNameAwaited (Step.not_awaitsAnnotationName_after (.inl hkind))
      (Step.typeNameAwaited_after_keyword hkind hlast (by rw [htext]; decide)) hreserved] at hfirst
    obtain ⟨symbol, hsymbol, hshape⟩ :
        ∃ symbol ∈ [Symbol.leftParen, .less], next.shape = .symbol symbol := by
      rcases hnext with hnext | hnext
      · exact ⟨.leftParen, by decide, of_decide_eq_true hnext⟩
      · exact ⟨.less, by decide, of_decide_eq_true hnext⟩
    have key : ∀ symbol ∈ [Symbol.leftParen, .less], symbol.closingAngles = 0 ∧
        (∀ kind ∈ symbol.kinds, kind.isTrivia = false) ∧
        (symbol.spelling = "(" ∨ symbol.spelling = "<") := by decide
    obtain ⟨hangles, hkinds, hspelling⟩ := key symbol hsymbol
    obtain ⟨second, -, -, -, hsecond, hscript'⟩ := Context.exists_script_cons (l := next)
      (by rw [hshape]; exact hangles) (by rw [hshape]; simp) (by rw [hshape]; exact hkinds) mode
      first.after ls
    have hsecondText : second.text = symbol.spelling := by
      rw [← (hls.2 next (by simp)).word_of_symbol hshape]
      exact congrArg String.ofList hsecond
    have hlater : later = first :: second :: second.after.script mode ls := by
      rw [h.later, hscript, hscript']
    exact ⟨first, second, _, hlater, hfirst, hsecondText ▸ hspelling⟩

theorem shape_of_moduleKeyword (h : Place mode s later l behind)
    (hkind : s.kind = .moduleKeyword) : l.shape = .word := by
  have hkind' := h.kind_mem
  rw [hkind] at hkind'
  exact Shape.eq_word_of_kind (by decide) hkind'

theorem moduleKeyword_cases (h : Place mode s later l behind) (hkind : s.kind = .moduleKeyword) :
    (s.before.top = some .moduleBody ∧ s.text ∈ Keyword.moduleDirectives) ∨
    (s.before.top = none ∧ s.text = "module" ∧ Lookahead.moduleHeader behind = true) ∨
    (s.before.top = none ∧ s.text = "open" ∧ Lookahead.openModuleHeader behind = true) := by
  rw [h.word]
  exact Reading.moduleKeyword_cases
    ((Context.kind_of_word (h.shape_of_moduleKeyword hkind) h.steps).symm.trans hkind)

theorem opened (h : Place mode s later l behind) (hs : s.IsModuleKeyword "open") :
    ∃ word rest, later = word :: rest ∧ word.IsModuleKeyword "module" := by
  obtain ⟨htop, hheader⟩ :
      s.before.top = none ∧ Lookahead.openModuleHeader behind = true := by
    rcases h.moduleKeyword_cases hs.kind with ⟨-, hmem⟩ | ⟨-, htext, -⟩ | ⟨htop, -, hheader⟩
    · rw [hs.text] at hmem
      exact absurd hmem (by decide)
    · rw [hs.text] at htext
      exact absurd htext (by decide)
    · exact ⟨htop, hheader⟩
  cases behind with
  | nil => cases hheader
  | cons next behind =>
    rw [Lookahead.openModuleHeader, Bool.and_eq_true, Bool.and_eq_true] at hheader
    obtain ⟨⟨hnext, hword⟩, hheader⟩ := hheader
    have hshape : next.shape = .word := of_decide_eq_true hnext
    have hword' : next.word = "module" := of_decide_eq_true hword
    obtain ⟨word, -, -, hwordKind, hwordText, hscript⟩ :=
      Context.exists_script_word hshape mode s.after behind
    have htrivia : s.kind.isTrivia = false := by rw [hs.kind]; rfl
    have htop' : s.after.top = none := by
      rw [Context.top, Step.regions_after, hs.kind]
      exact htop
    have htype : s.after.typeNameAwaited = false := by
      rw [Step.typeNameAwaited_after htrivia,
        Context.declares?_of_ne_keyword (by rw [hs.kind]; decide)]
      rfl
    have hrestricted : Reading.restrictedKind? s.after "module" behind = some .moduleKeyword := by
      unfold Reading.restrictedKind?
      rw [htop', hheader]
      rfl
    rw [hword', Reading.wordKind_of_name
      (Step.not_awaitsAnnotationName_after (.inr hs.kind)) htype (by decide), hrestricted]
      at hwordKind
    exact ⟨word, _, h.later.trans hscript, hwordKind,
      (congrArg String.ofList hwordText).trans hword'⟩

theorem module (h : Place mode s later l behind) (hs : s.IsModuleKeyword "module") :
    ∃ names brace rest, later = names ++ brace :: rest ∧ QualifiedName (names.map Step.kind) ∧
      brace.kind = .leftBrace ∧ brace.Opens .moduleBody ∧ brace.after.header = none := by
  obtain ⟨htop, hheader⟩ : s.before.top = none ∧ Lookahead.moduleHeader behind = true := by
    rcases h.moduleKeyword_cases hs.kind with ⟨-, hmem⟩ | ⟨htop, -, hheader⟩ | ⟨-, htext, -⟩
    · rw [hs.text] at hmem
      exact absurd hmem (by decide)
    · exact ⟨htop, hheader⟩
    · rw [hs.text] at htext
      exact absurd htext (by decide)
  obtain ⟨names, brace, rest, hscript, hbrace⟩ :=
    (Context.NamesModule.of_keyword hs.kind hs.text htop).exists_body hheader
  exact ⟨names, brace, rest, h.later.trans hscript, hbrace⟩

end Progress.Place

/-! ## Runs -/

/-- The name of a module that was announced is the one that is found. -/
theorem names_eq_of_append {mid names : List Step} {s brace : Step} {later rest : List Step}
    (h : mid ++ s :: later = names ++ brace :: rest) (hs : s ∉ names) (hbrace : brace ∉ mid) :
    mid = names := by
  rcases List.append_eq_append_iff.mp h with ⟨xs, hnames, hxs⟩ | ⟨xs, hmid, hxs⟩
  · cases xs with
    | nil => rw [hnames, List.append_nil]
    | cons x xs =>
      obtain ⟨rfl, -⟩ := List.cons.inj hxs
      exact absurd (hnames ▸ List.mem_append_right _ List.mem_cons_self) hs
  · cases xs with
    | nil => rw [hmid, List.append_nil]
    | cons x xs =>
      obtain ⟨rfl, -⟩ := List.cons.inj hxs
      exact absurd (hmid ▸ List.mem_append_right _ List.mem_cons_self) hbrace

namespace NamesHonoured

variable {mode : Mode} {index : LineIndex} {start : Nat} {ls : List Lexeme}
  {earlier later : List Step} {s : Step}

theorem exists_place (hls : ∀ l ∈ ls, l.Spelled)
    (hsplit : Progress.steps mode index ⟨.initial, 0⟩ (Occurrence.ofLexemes start ls) =
      earlier ++ s :: later) {kind : TokenKind} (hkind : s.kind = kind)
    (hangle : kind ≠ .genericClose ∧ kind ≠ .operator) :
    ∃ l behind, (∀ l' ∈ l :: behind, l'.Spelled) ∧ Progress.Place mode s later l behind := by
  have hspelled : AllSpelled .initial (ls.filter (·.isSignificant)) :=
    fun l hl => hls l (List.mem_filter.mp hl).1
  exact Progress.steps_place (keptByReading_allSpelled mode) hspelled hsplit (hkind ▸ hangle)

theorem exists_place_of_isWord (hls : ∀ l ∈ ls, l.Spelled)
    (hsplit : Progress.steps mode index ⟨.initial, 0⟩ (Occurrence.ofLexemes start ls) =
      earlier ++ s :: later) (hword : s.isWord = true) :
    ∃ l behind, l.shape = .word ∧ Progress.Place mode s later l behind := by
  have hspelled : AllSpelled .initial (ls.filter (·.isSignificant)) :=
    fun l hl => hls l (List.mem_filter.mp hl).1
  obtain ⟨l, behind, hahead, h⟩ := Progress.steps_place_of (keptByReading_allSpelled mode) hspelled
    hsplit (fun c l behind hahead hmem => by
      by_contra hangles
      have hnot := Lexeme.startsWord_of_closingAngles (hahead l List.mem_cons_self) hangles
        (Context.piece_mem_of_mem_steps hmem)
      rw [Step.isWord, hnot] at hword
      cases hword)
  refine ⟨l, behind, (hahead l List.mem_cons_self).isWord_iff.mpr ?_, h⟩
  rw [← h.text]
  exact hword

theorem interface_of_run (hls : ∀ l ∈ ls, l.Spelled)
    (hsplit : Progress.steps mode index ⟨.initial, 0⟩ (Occurrence.ofLexemes start ls) =
      earlier ++ s :: later) (hkind : s.kind = .keyword) (htext : s.text = "@") :
    ∃ word rest, later = word :: rest ∧ word.kind = .keyword ∧ word.text = "interface" ∧
      ∀ name rest', rest = name :: rest' → name.isWord = true →
        Keyword.isReserved name.text = false → name.kind = .className := by
  obtain ⟨l, behind, hspelled, h⟩ := exists_place hls hsplit hkind (by decide)
  obtain ⟨word, rest, rfl, hword, hwordText, hannotation, htype⟩ :=
    h.interface (hspelled l List.mem_cons_self) hkind htext
  refine ⟨word, rest, rfl, hword, hwordText, ?_⟩
  rintro name rest' rfl hname hreserved
  have hsplit' : Progress.steps mode index ⟨.initial, 0⟩ (Occurrence.ofLexemes start ls) =
      (earlier ++ [s, word]) ++ name :: rest' := by
    rw [hsplit, List.append_assoc]
    rfl
  -- The context in front of the name is the one behind `interface`.
  have hlast := Progress.steps_history (R := fun done ctx => ∀ s ∈ done.getLast?, s.after = ctx)
    (fun done s _ _ => by simp) (by simp) hsplit'
  have hbefore : name.before = word.after := (hlast word (by simp)).symm
  obtain ⟨n, behind', hn, h'⟩ := exists_place_of_isWord hls hsplit' hname
  rw [Context.kind_of_word hn h'.steps, ← h'.word, hbefore]
  exact Reading.wordKind_of_typeNameAwaited hannotation htype hreserved behind'

theorem record_of_run (hls : ∀ l ∈ ls, l.Spelled)
    (hsplit : Progress.steps mode index ⟨.initial, 0⟩ (Occurrence.ofLexemes start ls) =
      earlier ++ s :: later) (hkind : s.kind = .keyword) (htext : s.text = "record")
    (hdot : ∀ p ∈ earlier.getLast?, p.kind ≠ .dot) :
    ∃ name next rest, later = name :: next :: rest ∧ name.kind = .className ∧
      (next.text = "(" ∨ next.text = "<") := by
  obtain ⟨l, behind, hspelled, h⟩ := exists_place hls hsplit hkind (by decide)
  have hlast := Progress.steps_history (R := fun done ctx => ctx.last = done.getLast?.map Step.kind)
    (fun done s htrivia _ => by simp [Step.last_after htrivia]) rfl hsplit
  refine h.record hspelled hkind htext fun hpoint => ?_
  rw [hpoint, eq_comm, Option.map_eq_some_iff] at hlast
  obtain ⟨p, hp, hpkind⟩ := hlast
  exact hdot p hp hpkind

theorem module_of_run (hls : ∀ l ∈ ls, l.Spelled)
    (hsplit : Progress.steps mode index ⟨.initial, 0⟩ (Occurrence.ofLexemes start ls) =
      earlier ++ s :: later) (hs : s.IsModuleKeyword "module") :
    ∃ names brace rest, later = names ++ brace :: rest ∧ QualifiedName (names.map Step.kind) ∧
      brace.kind = .leftBrace ∧ brace.Opens .moduleBody ∧ brace.after.header = none := by
  obtain ⟨l, behind, -, h⟩ := exists_place hls hsplit hs.kind (by decide)
  exact h.module hs

/-- Behind the keyword that announced the body stand its name and the brace that was found, and
no other brace comes in between. -/
theorem body_of_run (hls : ∀ l ∈ ls, l.Spelled)
    (hsplit : Progress.steps mode index ⟨.initial, 0⟩ (Occurrence.ofLexemes start ls) =
      earlier ++ s :: later) (hopens : s.Opens .moduleBody) :
    s.kind = .leftBrace ∧
      ∃ front word names, earlier = front ++ word :: names ∧ word.IsModuleKeyword "module" ∧
        QualifiedName (names.map Step.kind) := by
  obtain ⟨hkind, hheader⟩ := Step.header_of_opens_moduleBody hopens
  refine ⟨hkind, ?_⟩
  have htraced := Progress.steps_history (R := HeaderTraced) (fun _ _ => HeaderTraced.concat)
    headerTraced_initial hsplit
  obtain ⟨front, word, mid, rfl, hword, hwordText, hmid⟩ := htraced.announced _ hheader
  rw [List.append_assoc, List.cons_append] at hsplit
  obtain ⟨names, brace, rest, hlater, hnames, -, -, hnone⟩ :=
    module_of_run hls hsplit ⟨hword, hwordText⟩
  have hs : s ∉ names := by
    intro hs
    rcases hnames.kind_of_mem (List.mem_map_of_mem hs) with h | h <;> rw [hkind] at h <;> cases h
  have hbrace : brace ∉ mid := by
    intro hbrace
    rw [hmid brace hbrace] at hnone
    cases hnone
  rw [names_eq_of_append hlater hs hbrace]
  exact ⟨front, word, names, rfl, ⟨hword, hwordText⟩, hnames⟩

theorem directive_of_run (hls : ∀ l ∈ ls, l.Spelled)
    (hsplit : Progress.steps mode index ⟨.initial, 0⟩ (Occurrence.ofLexemes start ls) =
      earlier ++ s :: later) (hkind : s.kind = .moduleKeyword) (hopen : s.text ≠ "open")
    (hmodule : s.text ≠ "module") :
    ∃ front brace between, earlier = front ++ brace :: between ∧ brace.Opens .moduleBody ∧
      s.before.regions = brace.after.regions ∧
      ∀ b ∈ between, brace.after.regions <:+ b.before.regions := by
  obtain ⟨l, behind, -, h⟩ := exists_place hls hsplit hkind (by decide)
  have htop : s.before.top = some .moduleBody := by
    rcases h.moduleKeyword_cases hkind with ⟨htop, -⟩ | ⟨-, htext, -⟩ | ⟨-, htext, -⟩
    · exact htop
    · exact absurd htext hmodule
    · exact absurd htext hopen
  obtain ⟨outer, hregions⟩ := List.head?_eq_some_iff.mp htop
  have hopened := Progress.steps_history (R := BodiesOpened) (fun done s _ h => h.concat)
    (fun inner outer h => absurd h.symm
      (List.append_ne_nil_of_right_ne_nil _ (List.cons_ne_nil _ _))) hsplit
  obtain ⟨front, brace, between, rfl, hopens, rfl, hbetween⟩ := hopened [] outer hregions
  exact ⟨front, brace, between, rfl, hopens, hregions.trans hopens.symm,
    fun b hb => hopens ▸ hbetween b hb⟩

theorem of_run (mode : Mode) (index : LineIndex) (hls : ∀ l ∈ ls, l.Spelled) (start : Nat) :
    NamesHonoured
      (Progress.steps mode index ⟨.initial, 0⟩ (Occurrence.ofLexemes start ls)) where
  annotation := by
    intro earlier s later hsplit hkind htext
    obtain ⟨l, behind, hspelled, h⟩ := exists_place hls hsplit hkind (by decide)
    exact h.annotation hspelled hkind htext
  interface := fun _ _ _ hsplit => interface_of_run hls hsplit
  call := by
    intro earlier s later hsplit hkind
    obtain ⟨l, behind, -, h⟩ := exists_place hls hsplit hkind (by decide)
    exact h.call hkind
  record := fun _ _ _ hsplit => record_of_run hls hsplit
  opened := by
    intro earlier s later hsplit hs
    obtain ⟨l, behind, -, h⟩ := exists_place hls hsplit hs.kind (by decide)
    exact h.opened hs
  module := by
    intro earlier s later hsplit hs
    obtain ⟨names, brace, rest, hlater, hnames, hkind, hopens, -⟩ := module_of_run hls hsplit hs
    exact ⟨names, brace, rest, hlater, hnames, hkind, hopens⟩
  body := fun _ _ _ hsplit => body_of_run hls hsplit
  directive := fun _ _ _ hsplit => directive_of_run hls hsplit

end NamesHonoured

/-- **What was found ahead comes**, in a source that is read from any offset on. -/
theorem names_honoured (source : String) (offset : Nat) (stoppable : Bool) :
    let s := TokenStream.openAt source offset stoppable
    List.Forall₂ (Token.Shows source) (s.drain false).significant s.steps ∧
      NamesHonoured s.steps :=
  ⟨TokenStream.shows_steps source offset stoppable,
    NamesHonoured.of_run .whole _ (fun _ hl => Lexeme.spelled_of_mem_ofTextFrom hl) _⟩

end JavaHighlight
