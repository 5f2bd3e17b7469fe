import JavaHighlight.Proofs.Bodies.Runs

/-!
# Headers and the braces they wait for

The keyword of a declaration announces a body. What happens to the header from there on is told
by the steps behind the keyword (`HeaderSince`): it waits until a brace or a semicolon stands
beside the keyword or another keyword announces a body. So it reaches its body through anything
else (`opens_declaredBody`), and a brace that opens the body of a header is the first one beside
the keyword (`header_stays_in_region`). What does not end a header is the end of the region that
its keyword stands in (`enum_leaves_method`).
-/

namespace JavaHighlight

/-! ## Keywords that announce a body -/

/-- The keywords of type declarations with the bodies that they announce. -/
def typeDeclarations : List (String × Region) := [
  ("class", .classBody), ("record", .classBody), ("interface", .interfaceBody),
  ("enum", .enumBody true)]

theorem mem_typeDeclarations_iff {word : String} {body : Region} :
    (word, body) ∈ typeDeclarations ↔ Context.declaredBody? word = some body := by
  constructor
  · intro h
    simp only [typeDeclarations, List.mem_cons, Prod.mk.injEq, List.not_mem_nil, or_false] at h
    rcases h with ⟨rfl, rfl⟩ | ⟨rfl, rfl⟩ | ⟨rfl, rfl⟩ | ⟨rfl, rfl⟩ <;> decide
  · intro h
    unfold Context.declaredBody? at h
    split_ifs at h with hclass hinterface henum
    · cases h
      rcases hclass with rfl | rfl <;> decide
    · cases h
      rw [hinterface]
      decide
    · cases h
      rw [henum]
      decide

namespace Step

/-- A step is the keyword of a declaration with the given body. Behind a point, as in
`Foo.class`, the keyword of a type declares nothing. -/
def Announces (s : Step) (body : Region) : Prop :=
  s.kind = .keyword ∧ s.before.last ≠ some .dot ∧ (s.text, body) ∈ typeDeclarations ∨
    s.kind = .moduleKeyword ∧ s.text = "module" ∧ body = .moduleBody

instance (s : Step) (body : Region) : Decidable (s.Announces body) :=
  inferInstanceAs (Decidable (_ ∨ _))

/-- A step is the keyword of some declaration. -/
def Declares (s : Step) : Prop :=
  ∃ body, s.Announces body

instance (s : Step) : Decidable s.Declares :=
  decidable_of_iff (∃ body ∈ Region.all, s.Announces body)
    ⟨fun ⟨body, _, h⟩ => ⟨body, h⟩, fun ⟨body, h⟩ => ⟨body, body.mem_all, h⟩⟩

/-- A step is a brace or a semicolon at the given depth. -/
def EndsHeader (s : Step) (depth : Nat) : Prop :=
  (s.kind = .leftBrace ∨ s.kind = .semicolon) ∧ s.before.depth = depth

instance (s : Step) (depth : Nat) : Decidable (s.EndsHeader depth) :=
  inferInstanceAs (Decidable (_ ∧ _))

variable {s : Step} {body : Region} {depth : Nat}

theorem Announces.kind (h : s.Announces body) : s.kind = .keyword ∨ s.kind = .moduleKeyword :=
  h.imp (·.1) (·.1)

theorem Announces.significant (h : s.Announces body) : s.kind.isTrivia = false := by
  rcases h.kind with hkind | hkind <;> rw [hkind] <;> rfl

theorem not_declares_of_kind (h : s.kind ≠ .keyword ∧ s.kind ≠ .moduleKeyword) :
    ¬ s.Declares := by
  rintro ⟨body, hannounces⟩
  exact hannounces.kind.elim h.1 h.2

theorem Announces.depth_after (h : s.Announces body) : s.after.depth = s.before.depth := by
  rw [Step.depth_after]
  rcases h.kind with hkind | hkind <;> rw [hkind] <;> rfl

theorem Announces.header_after (h : s.Announces body) :
    s.after.header = some (body, s.before.depth) := by
  rw [Step.header_after h.significant]
  rcases h with ⟨hkind, hlast, hbody⟩ | ⟨hkind, htext, rfl⟩
  · have hdeclares : s.before.declares? s.kind s.text = some body := by
      rw [Context.declares?, if_pos ⟨hkind, hlast⟩]
      exact mem_typeDeclarations_iff.mp hbody
    unfold Context.headerAfter
    rw [hdeclares]
  · rw [hkind, htext, Context.headerAfter_moduleKeyword]

theorem header_after_of_not_declares (hsignificant : s.kind.isTrivia = false)
    (h : ¬ s.Declares) :
    s.after.header = if s.kind = .leftBrace ∨ s.kind = .semicolon then s.before.headerReached
      else s.before.header := by
  have hdeclares : s.before.declares? s.kind s.text = none := by
    rw [Option.eq_none_iff_forall_ne_some]
    intro body hbody
    unfold Context.declares? at hbody
    split_ifs at hbody with hkeyword
    exact h ⟨body, .inl ⟨hkeyword.1, hkeyword.2, mem_typeDeclarations_iff.mpr hbody⟩⟩
  rw [header_after hsignificant]
  unfold Context.headerAfter
  rw [hdeclares]
  split
  · next body hbody => cases hbody
  · split
    · next hkind =>
      have htext : s.text ≠ "module" := fun htext => h ⟨_, .inr ⟨hkind, htext, rfl⟩⟩
      rw [if_neg htext, if_neg (by rw [hkind]; decide)]
    · next hkind => rw [if_pos (.inl hkind)]
    · next hkind => rw [if_pos (.inr hkind)]
    · next hbrace hsemicolon => rw [if_neg (not_or.mpr ⟨hbrace, hsemicolon⟩)]

/-- **What a step does to the header**: it waits behind the step if the step announces it, or if
it has waited in front of the step and the step neither announces another one nor ends it. -/
theorem header_after_eq_some_iff (hsignificant : s.kind.isTrivia = false) :
    s.after.header = some (body, depth) ↔
      s.Announces body ∧ s.before.depth = depth ∨
        ¬ s.Declares ∧ s.before.header = some (body, depth) ∧ ¬ s.EndsHeader depth := by
  by_cases hdeclares : s.Declares
  · obtain ⟨other, hother⟩ := hdeclares
    constructor
    · intro h
      obtain ⟨rfl, hdepth⟩ := Prod.mk.inj (Option.some.inj (hother.header_after.symm.trans h))
      exact .inl ⟨hother, hdepth⟩
    · rintro (⟨hbody, rfl⟩ | ⟨hnone, -⟩)
      · exact hbody.header_after
      · exact absurd ⟨other, hother⟩ hnone
  · have hnot : ¬ (s.Announces body ∧ s.before.depth = depth) := fun h => hdeclares ⟨body, h.1⟩
    rw [header_after_of_not_declares hsignificant hdeclares, or_iff_right hnot, EndsHeader]
    split_ifs with hkind
    · rw [Context.headerReached, Option.filter_eq_some_iff]
      constructor
      · rintro ⟨hheader, hdepth⟩
        exact ⟨hdeclares, hheader, fun hends => of_decide_eq_true hdepth hends.2.symm⟩
      · rintro ⟨-, hheader, hends⟩
        exact ⟨hheader, decide_eq_true fun hdepth => hends ⟨hkind, hdepth.symm⟩⟩
    · constructor
      · exact fun hheader => ⟨hdeclares, hheader, fun hends => hkind hends.1⟩
      · exact fun h => h.2.1

end Step

/-! ## What became of a header -/

/-- A keyword announced a body, and at the steps since then nothing has ended its header. -/
structure HeaderSince (body : Region) (keyword : Step) (since : List Step) : Prop where
  announces : keyword.Announces body
  /-- No other keyword announced a body. -/
  last : ∀ s ∈ since, ¬ s.Declares
  /-- No brace and no semicolon stood beside the keyword. -/
  apart : ∀ s ∈ since, ¬ s.EndsHeader keyword.before.depth

instance (body : Region) (keyword : Step) (since : List Step) :
    Decidable (HeaderSince body keyword since) :=
  decidable_of_iff (keyword.Announces body ∧ (∀ s ∈ since, ¬ s.Declares) ∧
      ∀ s ∈ since, ¬ s.EndsHeader keyword.before.depth)
    ⟨fun ⟨h, h', h''⟩ => ⟨h, h', h''⟩, fun h => ⟨h.announces, h.last, h.apart⟩⟩

variable {body : Region} {keyword : Step} {since : List Step} {ctx : Context}

/-- A header that nothing has ended waits at the depth of its keyword. -/
theorem HeaderSince.header (h : HeaderSince body keyword since)
    (hrun : Leads keyword.after since ctx) : ctx.header = some (body, keyword.before.depth) := by
  refine hrun.keeps (P := fun c => c.header = some (body, keyword.before.depth))
    h.announces.header_after fun s hs hsignificant hbefore => ?_
  exact (Step.header_after_eq_some_iff hsignificant).mpr
    (.inr ⟨h.last s hs, hbefore, h.apart s hs⟩)

/-- A header that waits behind some steps was announced by one of them, and has waited since. -/
def HeaderTraced (done : List Step) (ctx : Context) : Prop :=
  ∀ body depth, ctx.header = some (body, depth) →
    ∃ front keyword since, done = front ++ keyword :: since ∧ HeaderSince body keyword since ∧
      keyword.before.depth = depth ∧
      ∀ s ∈ since, s.before.header = some (body, depth) ∧ s.after.header = some (body, depth)

theorem headerTraced_initial : HeaderTraced [] Context.initial := by
  intro body depth h
  cases h

theorem HeaderTraced.concat {done : List Step} {s : Step}
    (hsignificant : s.kind.isTrivia = false) (h : HeaderTraced done s.before) :
    HeaderTraced (done ++ [s]) s.after := by
  intro body depth hafter
  rcases (Step.header_after_eq_some_iff hsignificant).mp hafter with
    ⟨hannounces, hdepth⟩ | ⟨hdeclares, hbefore, hends⟩
  · refine ⟨done, s, [], rfl, ⟨hannounces, ?_, ?_⟩, hdepth, ?_⟩ <;>
      exact fun _ hmem => absurd hmem List.not_mem_nil
  · obtain ⟨front, keyword, since, rfl, hsince, rfl, hwaits⟩ := h body depth hbefore
    refine ⟨front, keyword, since ++ [s], by rw [List.append_assoc, List.cons_append],
      ⟨hsince.announces, ?_, ?_⟩, rfl, ?_⟩ <;>
      rw [List.forall_mem_append, List.forall_mem_singleton]
    · exact ⟨hsince.last, hdeclares⟩
    · exact ⟨hsince.apart, hends⟩
    · exact ⟨hwaits, hbefore, hafter⟩

theorem Leads.header_ne {steps : List Step} {last : Context} {depth : Nat}
    (hrun : Leads ctx steps last) (hctx : ∀ body, ctx.header ≠ some (body, depth))
    (hsteps : ∀ s ∈ steps, s.Declares → s.before.depth ≠ depth) (body : Region) :
    last.header ≠ some (body, depth) := by
  refine hrun.keeps (P := fun c => c.header ≠ some (body, depth)) (hctx body)
    fun s hs hsignificant hbefore hafter => ?_
  rcases (Step.header_after_eq_some_iff hsignificant).mp hafter with
    ⟨hannounces, hdepth⟩ | ⟨-, hheader, -⟩
  · exact hsteps s hs ⟨body, hannounces⟩ hdepth
  · exact hbefore hheader

/-- Arguments leave no header behind at their depth. -/
theorem Arguments.header_ne {opening closing : Step} {inside : List Step} {last : Context}
    {depth : Nat} (h : Arguments depth opening inside closing)
    (hrun : Leads ctx (opening :: (inside ++ [closing])) last)
    (hctx : ∀ body, ctx.header ≠ some (body, depth)) (body : Region) :
    last.header ≠ some (body, depth) := by
  have hopening : ¬ opening.Declares := Step.not_declares_of_kind (by rw [h.opens]; decide)
  have hclosing : ¬ closing.Declares := Step.not_declares_of_kind (by rw [h.closes]; decide)
  have hinside := (Arguments.run hrun).2.1.depth_le_before
    (Nat.le_of_eq h.depth_opening.symm) h.stays
  refine hrun.header_ne hctx ?_ body
  rw [List.forall_mem_cons, List.forall_mem_append, List.forall_mem_singleton]
  exact ⟨fun hdeclares => absurd hdeclares hopening,
    fun s hs _ => Nat.ne_of_gt (hinside s hs), fun hdeclares => absurd hdeclares hclosing⟩

/-! ## What a brace opens -/

theorem Step.opens_iff_of_leftBrace {brace : Step} (hkind : brace.kind = .leftBrace)
    (region : Region) : brace.Opens region ↔ brace.before.braceRegion = region := by
  rw [Opens, regions_after, hkind]
  exact List.cons_eq_cons.trans (and_iff_left rfl)

theorem Context.braceRegion_of_header (h : ctx.header = some (body, ctx.depth)) :
    ctx.braceRegion = body := by
  have hbody : ctx.headerBody? = some body := by
    rw [headerBody?, h]
    exact if_pos rfl
  rw [braceRegion, hbody, Option.getD_some]

theorem Context.braceRegion_of_no_header (h : ∀ body, ctx.header ≠ some (body, ctx.depth)) :
    ctx.braceRegion = ctx.bodyWithoutHeader := by
  have hbody : ctx.headerBody? = none := by
    unfold headerBody?
    split
    · next body depth hheader =>
      have hne : depth ≠ ctx.depth := fun hdepth => h body (hdepth ▸ hheader)
      exact if_neg hne
    · rfl
  rw [braceRegion, hbody, Option.getD_none]

/-! ## From the keyword to the body -/

/-- **A declaration reaches its body through any clause.** The first brace beside the keyword of
a type opens the body that the keyword announces, if no semicolon beside the keyword and no other
keyword of a declaration comes first. What else is open, and how deep the clause goes, does not
matter. -/
theorem opens_declaredBody {ctx : Context} {pieces : List Piece} {keyword brace : Step}
    {clause rest : List Step} {body : Region}
    (hsteps : ctx.steps pieces = keyword :: clause ++ brace :: rest)
    (hlast : ctx.last ≠ some .dot) (hkeyword : keyword.kind = .keyword)
    (hbody : (keyword.text, body) ∈ typeDeclarations)
    (hclause : ∀ s ∈ clause, ¬ s.Declares ∧ ¬ s.EndsHeader ctx.depth)
    (hbrace : brace.kind = .leftBrace) (hdepth : brace.before.depth = ctx.depth) :
    brace.Opens body := by
  have hrun := Leads.of_steps ctx pieces
  rw [hsteps, List.cons_append, leads_cons_iff] at hrun
  obtain ⟨rfl, -, hrun⟩ := hrun
  obtain ⟨mid, hclauseRun, hrun⟩ := leads_append_iff.mp hrun
  obtain ⟨rfl, -, -⟩ := leads_cons_iff.mp hrun
  have hsince : HeaderSince body keyword clause :=
    ⟨.inl ⟨hkeyword, hlast, hbody⟩, fun s hs => (hclause s hs).1, fun s hs => (hclause s hs).2⟩
  refine (Step.opens_iff_of_leftBrace hbrace body).mpr (Context.braceRegion_of_header ?_)
  rw [hsince.header hclauseRun, hdepth]

/-- The steps of an enum behind its brace: a record stands where its constants are listed. -/
def recordAmongConstants : List Step :=
  TokenStream.stepsBehind 6 "enum E { record R(@D({1}) int x) { } }"

/-- The braces in the header of the record and the constants around it do not matter. -/
theorem opens_declaredBody_record :
    ∃ (keyword brace : Step) (clause rest : List Step),
      recordAmongConstants = keyword :: clause ++ brace :: rest ∧
      keyword.before.inConstants = true ∧ keyword.text = "record" ∧
      (∃ s ∈ clause, s.kind = .leftBrace) ∧ brace.Opens .classBody := by
  obtain ⟨first, last, hsteps, hconstants, hkeyword, htext, hlast, hbraces, hclause, hbrace,
      hdepth⟩ :
      ∃ first : 0 < recordAmongConstants.length, ∃ last : 13 < recordAmongConstants.length,
        let keyword := recordAmongConstants.get ⟨0, first⟩
        let clause := (recordAmongConstants.take 13).tail
        let brace := recordAmongConstants.get ⟨13, last⟩
        recordAmongConstants = keyword :: clause ++ brace :: recordAmongConstants.drop 14 ∧
          keyword.before.inConstants = true ∧ keyword.kind = .keyword ∧ keyword.text = "record" ∧
          keyword.before.last ≠ some .dot ∧ (∃ s ∈ clause, s.kind = .leftBrace) ∧
          (∀ s ∈ clause, ¬ s.Declares ∧ ¬ s.EndsHeader keyword.before.depth) ∧
          brace.kind = .leftBrace ∧ brace.before.depth = keyword.before.depth := by
    decide +kernel
  exact ⟨_, _, _, _, hsteps, hconstants, htext, hbraces,
    opens_declaredBody hsteps hlast hkeyword (by rw [htext]; decide) hclause hbrace hdepth⟩

/-! ## From the body back to the keyword -/

/-- A step closes the region in which the keyword of the waiting header stands. -/
def Step.Abandons (s : Step) : Prop :=
  (∃ body, s.before.header = some (body, s.before.depth)) ∧ s.after.depth < s.before.depth

/-- While its header waits, the region around a keyword is closed only by a step that abandons
the header. -/
theorem HeaderSince.inside_iff (h : HeaderSince body keyword since)
    (hrun : Leads keyword.after since ctx)
    (hwaits : ∀ s ∈ since, s.before.header = some (body, keyword.before.depth)) :
    (∀ s ∈ since, keyword.before.depth ≤ s.after.depth) ↔ ∀ s ∈ since, ¬ s.Abandons := by
  constructor
  · rintro hinside s hs ⟨⟨other, hother⟩, hless⟩
    have heq := (Prod.mk.inj (Option.some.inj (hother.symm.trans (hwaits s hs)))).2
    have hle := hinside s hs
    omega
  · intro hkept
    refine hrun.depth_le_after (Nat.le_of_eq h.announces.depth_after.symm) ?_
    rintro s hs ⟨hdepth, hless⟩
    exact hkept s hs ⟨⟨body, by rw [hwaits s hs, hdepth]⟩, by rw [hdepth]; exact hless⟩

/-- **A header stays in its region unless the region is closed.** A brace that opens the body of
a header is the first one beside a keyword that announced this body; no semicolon beside the
keyword and no other keyword of a declaration comes in between, and the depth has stayed above
that of the keyword if and only if no step has closed the region with the header waiting in it.
The same keyword can be named for a header that still waits, and its depth is then at most the
present one. -/
theorem header_stays_in_region (pieces : List Piece) :
    (∀ (earlier later : List Step) (brace : Step) (body : Region),
      Context.initial.steps pieces = earlier ++ brace :: later → brace.kind = .leftBrace →
        brace.before.header = some (body, brace.before.depth) → brace.Opens body ∧
          ∃ front keyword between, earlier = front ++ keyword :: between ∧
          HeaderSince body keyword between ∧ keyword.before.depth = brace.before.depth ∧
          ((∀ s ∈ between, keyword.before.depth ≤ s.after.depth) ↔
            ∀ s ∈ between, ¬ s.Abandons)) ∧
      ∀ body depth, (Context.initial.observePieces pieces).header = some (body, depth) →
        ∃ front keyword since, Context.initial.steps pieces = front ++ keyword :: since ∧
          HeaderSince body keyword since ∧ keyword.before.depth = depth ∧
          ((∀ s ∈ since, ¬ s.Abandons) →
            depth ≤ (Context.initial.observePieces pieces).depth) := by
  have hrun := Leads.of_steps Context.initial pieces
  obtain ⟨hend, hplaces⟩ := Context.steps_history (fun _ _ => HeaderTraced.concat)
    headerTraced_initial pieces
  constructor
  · intro earlier later brace body hsteps hbrace hheader
    refine ⟨(Step.opens_iff_of_leftBrace hbrace body).mpr (Context.braceRegion_of_header hheader),
      ?_⟩
    obtain ⟨front, keyword, between, rfl, hsince, hdepth, hwaits⟩ :=
      hplaces earlier brace later hsteps body _ hheader
    rw [hsteps, leads_append_iff] at hrun
    obtain ⟨_, hrun, -⟩ := hrun
    obtain ⟨_, -, hrun⟩ := leads_append_iff.mp hrun
    obtain ⟨-, -, hrun⟩ := leads_cons_iff.mp hrun
    rw [← hdepth] at hwaits
    exact ⟨front, keyword, between, rfl, hsince, hdepth,
      hsince.inside_iff hrun fun s hs => (hwaits s hs).1⟩
  · intro body depth hheader
    obtain ⟨front, keyword, since, hsteps, hsince, rfl, hwaits⟩ := hend body depth hheader
    rw [List.nil_append] at hsteps
    rw [hsteps, leads_append_iff] at hrun
    obtain ⟨_, -, hrun⟩ := hrun
    obtain ⟨-, -, hrun⟩ := leads_cons_iff.mp hrun
    refine ⟨front, keyword, since, hsteps, hsince, rfl, fun hkept => ?_⟩
    exact hrun.depth_le_last (Nat.le_of_eq hsince.announces.depth_after.symm)
      ((hsince.inside_iff hrun fun s hs => (hwaits s hs).1).mpr hkept)

/-- The steps of a class with a method that breaks off behind the keyword of an enum. -/
def brokenOffEnum : List Step :=
  Context.initial.steps (TokenStream.openAt
    "class A { void f() { enum } void g() { if (x) { y(); } } }" 0 false).pieces

/-- The header of the enum leaves the method that it was begun in: behind the end of this method
it waits deeper than anything is open, and in the next method it turns a block into the body of
an enum. -/
theorem enum_leaves_method :
    ∃ (earlier later front between : List Step) (brace keyword : Step),
      brokenOffEnum = earlier ++ brace :: later ∧ brace.kind = .leftBrace ∧
      brace.before.header = some (.enumBody true, brace.before.depth) ∧
      brace.Opens (.enumBody true) ∧ earlier = front ++ keyword :: between ∧
      HeaderSince (.enumBody true) keyword between ∧
      ∃ s ∈ between, s.after.header = some (.enumBody true, keyword.before.depth) ∧
        s.after.depth < keyword.before.depth := by
  obtain ⟨first, last, h⟩ : ∃ first : 8 < brokenOffEnum.length, ∃ last : 19 < brokenOffEnum.length,
      let earlier := brokenOffEnum.take 19
      let brace := brokenOffEnum.get ⟨19, last⟩
      let keyword := brokenOffEnum.get ⟨8, first⟩
      let between := earlier.drop 9
      brokenOffEnum = earlier ++ brace :: brokenOffEnum.drop 20 ∧ brace.kind = .leftBrace ∧
        brace.before.header = some (.enumBody true, brace.before.depth) ∧
        brace.Opens (.enumBody true) ∧ earlier = brokenOffEnum.take 8 ++ keyword :: between ∧
        HeaderSince (.enumBody true) keyword between ∧
        ∃ s ∈ between, s.after.header = some (.enumBody true, keyword.before.depth) ∧
          s.after.depth < keyword.before.depth := by
    decide +kernel
  exact ⟨_, _, _, _, _, _, h⟩

end JavaHighlight
