import JavaHighlight.Proofs.Bodies.Headers
import JavaHighlight.Proofs.Names.Words

/-!
# Modules

Behind the keyword `module` the name of the module is read as plain names and points, and then a
brace opens its body (`Context.NamesModule.exists_body`). Looking back, a header that waits for
the body of a module was announced by that keyword (`HeaderAnnounced`), and a body of a module
that is open was opened by a brace and has stayed open since (`BodiesOpened`).
-/

namespace JavaHighlight

/-- Names joined by points. -/
inductive QualifiedName : List TokenKind → Prop
  | name : QualifiedName [.identifier]
  | qualified {kinds : List TokenKind} (h : QualifiedName kinds) :
    QualifiedName (.identifier :: .dot :: kinds)

theorem QualifiedName.kind_of_mem {kinds : List TokenKind} (h : QualifiedName kinds)
    {kind : TokenKind} (hkind : kind ∈ kinds) : kind = .identifier ∨ kind = .dot := by
  induction h with
  | name => exact .inl (List.mem_singleton.mp hkind)
  | qualified _ ih =>
    rcases List.mem_cons.mp hkind with rfl | hkind
    · exact .inl rfl
    rcases List.mem_cons.mp hkind with rfl | hkind
    · exact .inr rfl
    · exact ih hkind

namespace Context

theorem headerAfter_name {kind : TokenKind} (h : kind = .identifier ∨ kind = .dot)
    (ctx : Context) (text : String) : ctx.headerAfter kind text = ctx.header := by
  rcases h with rfl | rfl <;> rfl

theorem headerAfter_leftBrace (ctx : Context) (text : String) :
    ctx.headerAfter .leftBrace text = ctx.headerReached := rfl

theorem regions_of_top_eq_none {ctx : Context} (h : ctx.top = none) : ctx.regions = [] :=
  List.head?_eq_none_iff.mp h

end Context

/-! ## From the keyword to the body -/

namespace Context

/-- The name of a module is being read, outside of all else. -/
structure NamesModule (ctx : Context) : Prop where
  header : ctx.header = some (.moduleBody, 0)
  regions : ctx.regions = []
  annotation : ctx.annotationName = .absent
  type : ctx.typeNameAwaited = false

namespace NamesModule

variable {mode : Mode} {ctx : Context} {s : Step}

theorem of_keyword (hkind : s.kind = .moduleKeyword) (htext : s.text = "module")
    (htop : s.before.top = none) : s.after.NamesModule := by
  have htrivia : s.kind.isTrivia = false := by rw [hkind]; rfl
  have hregions := regions_of_top_eq_none htop
  have hdeclares : s.before.declares? s.kind s.text = none :=
    declares?_of_ne_keyword (by rw [hkind]; decide) _ _
  refine ⟨?_, ?_, ?_, ?_⟩
  · rw [Step.header_after htrivia, hkind, htext, headerAfter_moduleKeyword, depth, hregions,
      List.length_nil]
  · rw [Step.regions_after, hkind]
    exact hregions
  · rw [Step.annotationName_after htrivia, hkind]
    rfl
  · rw [Step.typeNameAwaited_after htrivia, hdeclares]
    rfl

theorem after (h : s.before.NamesModule) (hkind : s.kind = .identifier ∨ s.kind = .dot) :
    s.after.NamesModule := by
  have htrivia : s.kind.isTrivia = false := by
    rcases hkind with hkind | hkind <;> rw [hkind] <;> rfl
  have hdeclares : s.before.declares? s.kind s.text = none :=
    declares?_of_ne_keyword (by rcases hkind with hkind | hkind <;> rw [hkind] <;> decide) _ _
  refine ⟨?_, ?_, ?_, ?_⟩
  · rw [Step.header_after htrivia, headerAfter_name hkind]
    exact h.header
  · rw [Step.regions_after]
    rcases hkind with hkind | hkind <;> rw [hkind] <;> exact h.regions
  · rw [Step.annotationName_after htrivia]
    rcases hkind with hkind | hkind <;> rw [hkind]
    · rfl
    · rw [annotationAfter, h.annotation]
      rfl
  · rw [Step.typeNameAwaited_after htrivia, hdeclares]
    rfl

theorem opens (h : s.before.NamesModule) (hkind : s.kind = .leftBrace) :
    s.Opens .moduleBody ∧ s.after.header = none := by
  have htrivia : s.kind.isTrivia = false := by rw [hkind]; rfl
  have hdepth : s.before.depth = 0 := by rw [depth, h.regions, List.length_nil]
  constructor
  · rw [Step.opens_iff_of_leftBrace hkind]
    exact braceRegion_of_header (by rw [h.header, hdepth])
  · rw [Step.header_after htrivia, hkind, headerAfter_leftBrace, headerReached, h.header, hdepth]
    rfl

theorem awaitsAnnotationName (h : ctx.NamesModule) : ctx.awaitsAnnotationName = false := by
  rw [Context.awaitsAnnotationName, h.annotation]
  rfl

theorem top (h : ctx.NamesModule) : ctx.top = none := by
  rw [Context.top, h.regions]
  rfl

/-- A part of the name of a module is read as a plain name, whatever word it is. -/
theorem wordKind_eq (h : ctx.NamesModule) {name next : Lexeme} (hname : name.isName = true)
    {symbol : Symbol} (hnext : next.isSymbol symbol = true) (hsymbol : symbol ≠ .leftParen)
    (ls : List Lexeme) : Reading.wordKind ctx name.word (next :: ls) = .identifier := by
  have hshape : next.shape = .symbol symbol := of_decide_eq_true hnext
  have hword : next.shape ≠ .word := by rw [hshape]; simp
  have hnextName : next.isName = false := by simp [Lexeme.isName, hword]
  have hreserved : Keyword.isReserved name.word = false := by
    simpa [Lexeme.isName] using (Bool.and_eq_true_iff.mp hname).2
  have hrestricted : Reading.restrictedKind? ctx name.word (next :: ls) = none := by
    rw [Option.eq_none_iff_forall_ne_some]
    intro kind hkind
    rcases Reading.restrictedKind?_cases hkind with
      ⟨-, -, hheader⟩ | ⟨-, htop, -⟩ | ⟨-, -, -, hheader⟩ | ⟨-, -, -, hheader⟩
    · cases ls with
      | nil => cases hheader
      | cons _ _ => simp [Lookahead.recordHeader, hnextName] at hheader
    · rw [h.top] at htop
      cases htop
    · cases ls with
      | nil => cases hheader
      | cons _ _ => simp [Lookahead.moduleHeader, hnextName] at hheader
    · simp [Lookahead.openModuleHeader, hword] at hheader
  have hcall : Lookahead.opensCall (next :: ls) = false := by
    simp [Lookahead.opensCall, Lexeme.isSymbol, hshape, hsymbol]
  rw [Reading.wordKind_of_name h.awaitsAnnotationName h.type hreserved, hrestricted,
    Option.getD_none, Reading.nameKind, if_neg (by simp [inConstants, h.top]), hcall]
  rfl

/-- **The header of a module is read as it was found**: as names joined by points, and a brace
that opens the body of the module. -/
theorem exists_body (h : ctx.NamesModule) {ls : List Lexeme}
    (hheader : Lookahead.moduleHeader ls = true) :
    ∃ names brace rest, ctx.script mode ls = names ++ brace :: rest ∧
      QualifiedName (names.map Step.kind) ∧ brace.kind = .leftBrace ∧
      brace.Opens .moduleBody ∧ brace.after.header = none := by
  fun_induction Lookahead.moduleHeader ls generalizing ctx with
  | case1 name next ls ih =>
    rw [Bool.and_eq_true, Bool.or_eq_true, Bool.and_eq_true] at hheader
    obtain ⟨hname, hnext⟩ := hheader
    have hword : name.shape = .word := of_decide_eq_true (Bool.and_eq_true_iff.mp hname).1
    obtain ⟨s, -, rfl, hkind, -, hscript⟩ := exists_script_word hword mode ctx (next :: ls)
    rcases hnext with hbrace | ⟨hdot, hrest⟩
    · rw [h.wordKind_eq hname hbrace (by decide)] at hkind
      have hshape : next.shape = .symbol .leftBrace := of_decide_eq_true hbrace
      obtain ⟨brace, -, hbefore, hbraceKind, -, hscript'⟩ := exists_script_cons (l := next)
        (by rw [hshape]; rfl) (by rw [hshape]; simp) (by rw [hshape]; decide) mode s.after ls
      rw [hshape] at hbraceKind
      have hbraceKind' : brace.kind = .leftBrace := List.mem_singleton.mp hbraceKind
      have hnames : brace.before.NamesModule := by
        rw [hbefore]
        exact h.after (.inl hkind)
      obtain ⟨hopens, hnone⟩ := hnames.opens hbraceKind'
      refine ⟨[s], brace, _, hscript.trans (congrArg (s :: ·) hscript'), ?_, hbraceKind', hopens,
        hnone⟩
      rw [List.map_singleton, hkind]
      exact .name
    · rw [h.wordKind_eq hname hdot (by decide)] at hkind
      have hshape : next.shape = .symbol .dot := of_decide_eq_true hdot
      obtain ⟨dot, -, hbefore, hdotKind, -, hscript'⟩ := exists_script_cons (l := next)
        (by rw [hshape]; rfl) (by rw [hshape]; simp) (by rw [hshape]; decide) mode s.after ls
      rw [hshape] at hdotKind
      have hdotKind' : dot.kind = .dot := List.mem_singleton.mp hdotKind
      have hnames : dot.before.NamesModule := by
        rw [hbefore]
        exact h.after (.inl hkind)
      obtain ⟨names, brace, rest, hscript'', hqualified, hbrace⟩ :=
        ih (hnames.after (.inr hdotKind')) hrest
      refine ⟨s :: dot :: names, brace, rest, ?_, ?_, hbrace⟩
      · rw [hscript, hscript', hscript'', List.cons_append, List.cons_append]
      · rw [List.map_cons, List.map_cons, hkind, hdotKind']
        exact .qualified hqualified
  | case2 => cases hheader

end NamesModule

end Context

/-! ## Looking back -/

/-- A header that waits for the body of a module was announced by the keyword `module`, and has
been waiting since. -/
def HeaderAnnounced (done : List Step) (ctx : Context) : Prop :=
  ∀ depth, ctx.header = some (.moduleBody, depth) →
    ∃ front keyword names, done = front ++ keyword :: names ∧
      keyword.kind = .moduleKeyword ∧ keyword.text = "module" ∧
      ∀ s ∈ names, s.after.header = some (.moduleBody, depth)

/-- Only the keyword `module` announces the body of a module. -/
theorem HeaderTraced.announced {done : List Step} {ctx : Context} (h : HeaderTraced done ctx) :
    HeaderAnnounced done ctx := by
  intro depth hheader
  obtain ⟨front, keyword, names, hdone, hsince, -, hwaits⟩ := h .moduleBody depth hheader
  rcases hsince.announces with ⟨-, -, htype⟩ | ⟨hkind, htext, -⟩
  · simp [typeDeclarations] at htype
  · exact ⟨front, keyword, names, hdone, hkind, htext, fun s hs => (hwaits s hs).2⟩

/-- A body of a module that is open was opened by an earlier step, and has been open since. -/
def BodiesOpened (done : List Step) (ctx : Context) : Prop :=
  ∀ inner outer, ctx.regions = inner ++ .moduleBody :: outer →
    ∃ front brace between, done = front ++ brace :: between ∧ brace.Opens .moduleBody ∧
      brace.before.regions = outer ∧ ∀ s ∈ between, .moduleBody :: outer <:+ s.before.regions

theorem BodiesOpened.concat {done : List Step} {s : Step} (h : BodiesOpened done s.before) :
    BodiesOpened (done ++ [s]) s.after := by
  intro inner outer hregions
  -- A body that is open in front of the step as well is open over the step.
  have hstays : ∀ inner', s.before.regions = inner' ++ .moduleBody :: outer →
      ∃ front brace between, done ++ [s] = front ++ brace :: between ∧ brace.Opens .moduleBody ∧
        brace.before.regions = outer ∧
        ∀ s ∈ between, .moduleBody :: outer <:+ s.before.regions := by
    intro inner' hbefore
    obtain ⟨front, brace, between, rfl, hopens, houter, hbetween⟩ := h inner' outer hbefore
    refine ⟨front, brace, between ++ [s], by rw [List.append_assoc, List.cons_append], hopens,
      houter, ?_⟩
    refine List.forall_mem_append.mpr ⟨hbetween, List.forall_mem_singleton.mpr ?_⟩
    exact ⟨inner', hbefore.symm⟩
  have hafter := s.regions_after
  rcases s.before.regionsAfter_cases s.kind s.piece.opensLambda with
    ⟨region, hcase⟩ | hcase | hcase | hcase
  · rw [hcase] at hafter
    rw [hafter] at hregions
    cases inner with
    | nil =>
      obtain ⟨rfl, rfl⟩ := List.cons.inj hregions
      exact ⟨done, s, [], rfl, hafter, rfl, fun _ hmem => absurd hmem List.not_mem_nil⟩
    | cons _ inner => exact hstays inner (List.cons.inj hregions).2
  · rw [hcase] at hafter
    rw [hafter] at hregions
    cases hbefore : s.before.regions with
    | nil =>
      rw [hbefore] at hregions
      exact absurd hregions.symm (List.append_ne_nil_of_right_ne_nil _ (List.cons_ne_nil _ _))
    | cons region regions =>
      rw [hbefore, List.tail_cons] at hregions
      exact hstays (region :: inner) (by rw [hbefore, hregions, List.cons_append])
  · rw [hcase] at hafter
    exact hstays inner (hafter.symm.trans hregions)
  · rw [hcase] at hafter
    rw [hafter] at hregions
    unfold Context.endConstants at hregions
    split at hregions
    · next inConstants regions hbefore =>
      cases inner with
      | nil => cases (List.cons.inj hregions).1
      | cons _ inner =>
        obtain ⟨-, hregions'⟩ := List.cons.inj hregions
        refine hstays (.enumBody inConstants :: inner) ?_
        rw [hbefore, hregions']
        rfl
    · exact hstays inner hregions

/-- Only a brace opens the body of a module, and only where a header waits for it. -/
theorem Step.header_of_opens_moduleBody {s : Step} (h : s.Opens .moduleBody) :
    s.kind = .leftBrace ∧ s.before.header = some (.moduleBody, s.before.depth) := by
  have hpush : ∀ {region : Region}, region :: s.before.regions = .moduleBody :: s.before.regions →
      region = .moduleBody := fun h => (List.cons.inj h).1
  have hlength : ∀ {regions : List Region}, regions.length ≤ s.before.regions.length →
      regions ≠ .moduleBody :: s.before.regions := by
    rintro regions hle rfl
    rw [List.length_cons] at hle
    omega
  have htail : s.before.regions.tail.length ≤ s.before.regions.length := by
    rw [List.length_tail]
    omega
  unfold Opens at h
  rw [regions_after] at h
  unfold Context.regionsAfter at h
  split at h
  · next hkind =>
    refine ⟨hkind, ?_⟩
    have hregion := hpush h
    unfold Context.braceRegion Context.headerBody? at hregion
    split at hregion
    · next body depth hheader =>
      split at hregion
      · next hdepth =>
        rw [Option.getD_some] at hregion
        rw [hheader, hregion, hdepth]
      · rw [Option.getD_none, Context.bodyWithoutHeader] at hregion
        split_ifs at hregion
    · rw [Option.getD_none, Context.bodyWithoutHeader] at hregion
      split_ifs at hregion
  · have hregion := hpush h
    unfold Context.parenRegion at hregion
    split_ifs at hregion
  · cases hpush h
  · exact absurd h (hlength htail)
  · exact absurd h (hlength htail)
  · split at h
    · exact absurd h (hlength htail)
    · exact absurd h (hlength (Nat.le_refl _))
  · refine absurd h (hlength ?_)
    unfold Context.endConstants
    split
    · next hbefore => exact Nat.le_of_eq (by rw [hbefore, List.length_cons, List.length_cons])
    · exact Nat.le_refl _
  · exact absurd h (hlength (Nat.le_refl _))

end JavaHighlight
