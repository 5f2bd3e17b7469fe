import JavaHighlight.Proofs.Bodies.Headers

/-!
# Bodies of enum constants

One flag tells whether a constant is ready for its body, and the lists of constants of all enums
share it. Only tokens directly in a list of constants touch it. So what stands in the arguments
of a constant leaves it alone, up to another enum: where the list of the other enum is left, the
flag is cleared, and nothing sets it again before the arguments end.

The invariant of a run through arguments is that the constant in front of them waits and no list
of constants is open inside (`ConstantWaits`): it is kept by all steps but those that open such a
list, and a list once opened is never left with the constant waiting (`constantWaits_iff`).
-/

namespace JavaHighlight

namespace Context

def openLists (ctx : Context) : Nat :=
  ctx.regions.count (.enumBody true)

variable {ctx : Context} {base : List Region}

theorem inConstants_congr {ctx' : Context} (h : ctx.regions = ctx'.regions) :
    ctx.inConstants = ctx'.inConstants := by
  rw [inConstants, inConstants, top, top, h]

theorem regions_of_inConstants (h : ctx.inConstants = true) :
    ∃ outer, ctx.regions = .enumBody true :: outer :=
  List.head?_eq_some_iff.mp (of_decide_eq_true h)

/-- The list of constants that is innermost is one more than those further out. -/
theorem openLists_lt (hbase : ∀ b, base.head? ≠ some (.enumBody b)) (h : base <:+ ctx.regions)
    (hconstants : ctx.inConstants = true) : base.count (.enumBody true) < ctx.openLists := by
  obtain ⟨outer, hregions⟩ := regions_of_inConstants hconstants
  rw [hregions, List.suffix_cons_iff] at h
  rcases h with rfl | h
  · exact absurd rfl (hbase true)
  · rw [openLists, hregions, List.count_cons_self]
    exact Nat.lt_succ_of_le (h.sublist.count_le _)

theorem count_endConstants (h : ctx.inConstants = false) :
    (endConstants ctx.regions).count (.enumBody true) = ctx.openLists := by
  have htop : ctx.regions.head? ≠ some (.enumBody true) := of_decide_eq_false h
  unfold endConstants openLists
  split
  · next inConstants outer hregions =>
    rw [hregions] at htop ⊢
    cases inConstants with
    | true => exact absurd rfl htop
    | false => rfl
  · rfl

theorem constantReadyAfter_of_not_inConstants (h : ctx.inConstants = false) (kind : TokenKind) :
    ctx.constantReadyAfter kind = ctx.constantReady := by
  unfold constantReadyAfter
  rw [if_neg (by rw [h]; exact Bool.false_ne_true)]

end Context

namespace Step

variable {s : Step}

theorem openLists_of_opens (h : s.Opens (.enumBody true)) :
    s.after.openLists = s.before.openLists + 1 := by
  rw [Context.openLists, h, List.count_cons_self]
  rfl

/-- Outside of lists of constants, only the body of an enum changes how many are open. -/
theorem openLists_of_not_opens (hconstants : s.before.inConstants = false)
    (h : ¬ s.Opens (.enumBody true)) : s.after.openLists = s.before.openLists := by
  have htop : s.before.regions.head? ≠ some (.enumBody true) := of_decide_eq_false hconstants
  have hlists := Context.count_endConstants hconstants
  have hafter := s.regions_after
  rcases s.before.regionsAfter_cases s.kind s.piece.opensLambda with
    ⟨region, hregions⟩ | hregions | hregions | hregions <;> rw [hregions] at hafter
  · have hne : region ≠ .enumBody true := fun heq => h (heq ▸ hafter)
    rw [Context.openLists, hafter, List.count_cons_of_ne hne]
    rfl
  · rw [Context.openLists, Context.openLists, hafter, List.count_tail, if_neg (by simpa using htop)]
    rfl
  · rw [Context.openLists, hafter]
    rfl
  · rw [Context.openLists, hafter, hlists]

theorem constantReady_of_enumConstant (hconstants : s.before.inConstants = true)
    (hkind : s.kind = .enumConstant) : s.after.constantReady = true := by
  rw [constantReady_after (by rw [hkind]; rfl), hkind]
  unfold Context.constantReadyAfter
  rw [if_pos hconstants]

/-- Directly in a list of constants, a step behind which a constant is ready closes nothing. -/
theorem suffix_of_constantReady (hsignificant : s.kind.isTrivia = false)
    (hconstants : s.before.inConstants = true) (h : s.after.constantReady = true) :
    s.before.regions <:+ s.after.regions := by
  rw [constantReady_after hsignificant] at h
  unfold Context.constantReadyAfter at h
  rw [if_pos hconstants] at h
  rw [regions_after]
  split at h
  · next hkind => rw [hkind]; exact List.suffix_rfl
  · next hkind => rw [hkind]; exact List.suffix_cons _ _
  · cases h

end Step

/-! ## Waiting through arguments -/

/-- A constant is ready for its body, and inside the given regions no list of constants is
open. -/
def ConstantWaits (base : List Region) (ctx : Context) : Prop :=
  ctx.constantReady = true ∧ ctx.openLists = base.count (.enumBody true)

variable {base : List Region} {s : Step} {ctx last : Context} {steps : List Step}

theorem constantWaits_after (hsignificant : s.kind.isTrivia = false)
    (hbase : ∀ b, base.head? ≠ some (.enumBody b)) (hbefore : base <:+ s.before.regions) :
    ConstantWaits base s.after ↔ ConstantWaits base s.before ∧ ¬ s.Opens (.enumBody true) := by
  have hcount := hbefore.sublist.count_le (.enumBody true)
  change _ ≤ s.before.openLists at hcount
  cases hconstants : s.before.inConstants with
  | true =>
    -- the list that the step stands in is open inside, and the step leaves it or clears the flag
    have hlt := Context.openLists_lt hbase hbefore hconstants
    have hnot : ¬ ConstantWaits base s.before := fun h => absurd h.2 (Nat.ne_of_gt hlt)
    refine iff_of_false (fun h => ?_) (fun h => hnot h.1)
    have hle := (Step.suffix_of_constantReady hsignificant hconstants h.1).sublist.count_le
      (.enumBody true)
    exact absurd h.2 (Nat.ne_of_gt (Nat.lt_of_lt_of_le hlt hle))
  | false =>
    have hready : s.after.constantReady = s.before.constantReady := by
      rw [Step.constantReady_after hsignificant]
      exact Context.constantReadyAfter_of_not_inConstants hconstants s.kind
    rw [ConstantWaits, ConstantWaits, hready]
    by_cases hopens : s.Opens (.enumBody true)
    · rw [Step.openLists_of_opens hopens]
      exact iff_of_false (fun h => by omega) (fun h => h.2 hopens)
    · rw [Step.openLists_of_not_opens hconstants hopens]
      exact (and_iff_left hopens).symm

/-- **Which steps a constant waits through**: all that stay inside of what was open, but those
that open a list of constants. -/
theorem constantWaits_iff (hbase : ∀ b, base.head? ≠ some (.enumBody b))
    (hrun : Leads ctx steps last) (hctx : base <:+ ctx.regions)
    (hdepth : ∀ s ∈ steps, base.length ≤ s.after.depth) :
    base <:+ last.regions ∧
      (ConstantWaits base last ↔
        ConstantWaits base ctx ∧ ∀ s ∈ steps, ¬ s.Opens (.enumBody true)) := by
  have hends : Context.endConstants base = base := by
    unfold Context.endConstants
    split
    · next b outer => exact absurd rfl (hbase b)
    · rfl
  induction hrun with
  | nil => exact ⟨hctx, by simp⟩
  | @cons s _ _ significant _ ih =>
    rw [List.forall_mem_cons] at hdepth
    have hafter := s.suffix_after hctx hends hdepth.1
    obtain ⟨hlast, hwaits⟩ := ih hafter hdepth.2
    refine ⟨hlast, ?_⟩
    rw [hwaits, constantWaits_after significant hbase hctx, List.forall_mem_cons, and_assoc]

/-! ## The brace behind a constant -/

theorem Context.parenRegion_ne_enumBody (ctx : Context) (opensLambda b : Bool) :
    ctx.parenRegion opensLambda ≠ .enumBody b := by
  intro h
  have hbracket := ctx.bracket_parenRegion opensLambda
  rw [h] at hbracket
  cases hbracket

namespace Arguments

variable {depth : Nat} {opening closing : Step} {inside : List Step}

theorem opens_iff (h : Arguments depth opening inside closing) :
    (∀ s ∈ opening :: (inside ++ [closing]), ¬ s.Opens (.enumBody true)) ↔
      ∀ s ∈ inside, ¬ s.Opens (.enumBody true) := by
  have hopening : ¬ opening.Opens (.enumBody true) := by
    intro hopens
    rw [Step.Opens, h.regions_opening] at hopens
    exact Context.parenRegion_ne_enumBody _ _ _ (List.cons.inj hopens).1
  have hclosing : ¬ closing.Opens (.enumBody true) := by
    intro hopens
    have hdepth : closing.after.depth = closing.before.depth + 1 := congrArg List.length hopens
    rw [h.depth_closing, h.innermost] at hdepth
    omega
  rw [List.forall_mem_cons, List.forall_mem_append, List.forall_mem_singleton]
  exact (and_iff_right hopening).trans (and_iff_left hclosing)

/-- The arguments of a constant that is ready for its body leave it ready, unless a list of
constants is opened among them. -/
theorem constantReady_iff (h : Arguments depth opening inside closing)
    (hrun : Leads ctx (opening :: (inside ++ [closing])) last)
    (hconstants : ctx.inConstants = true) (hready : ctx.constantReady = true) :
    last.regions = ctx.regions ∧
      (last.constantReady = true ↔ ∀ s ∈ inside, ¬ s.Opens (.enumBody true)) := by
  obtain ⟨rfl, hinside, rfl⟩ := Arguments.run hrun
  have hparen : opening.kind.isTrivia = false ∧ closing.kind.isTrivia = false := by
    rw [h.opens, h.closes]
    exact ⟨rfl, rfl⟩
  have hbase : ∀ b, opening.after.regions.head? ≠ some (.enumBody b) := by
    intro b hhead
    rw [h.regions_opening, List.head?_cons] at hhead
    exact Context.parenRegion_ne_enumBody _ _ _ (Option.some.inj hhead)
  have hbegin : ConstantWaits opening.after.regions opening.after := by
    refine ⟨?_, rfl⟩
    rw [Step.constantReady_after hparen.1, h.opens]
    unfold Context.constantReadyAfter
    rw [if_pos hconstants]
    exact hready
  obtain ⟨hsuffix, hwaits⟩ := constantWaits_iff hbase hinside List.suffix_rfl fun s hs =>
    Nat.le_trans (Nat.le_of_eq h.depth_opening) (h.stays s hs)
  have hregions : opening.after.regions = closing.before.regions :=
    hsuffix.eq_of_length (h.depth_opening.trans h.innermost.symm)
  have houtside : closing.before.inConstants = false := by
    rw [hregions] at hbase
    exact decide_eq_false (hbase true)
  have hend : ConstantWaits opening.after.regions closing.before ↔
      closing.before.constantReady = true := by
    rw [ConstantWaits, hregions]
    exact and_iff_left rfl
  constructor
  · rw [h.regions_closing, ← hregions, h.regions_opening, List.tail_cons]
  · rw [Step.constantReady_after hparen.2,
      Context.constantReadyAfter_of_not_inConstants houtside, ← hend, hwaits]
    exact and_iff_right hbegin

end Arguments

theorem Context.braceRegion_eq_enumConstantBody_iff (hconstants : ctx.inConstants = true)
    (hheader : ∀ body, ctx.header ≠ some (body, ctx.depth)) :
    ctx.braceRegion = .enumConstantBody ↔ ctx.constantReady = true := by
  rw [braceRegion_of_no_header hheader, bodyWithoutHeader, hconstants, Bool.true_and]
  split_ifs with hready hanonymous
  · exact iff_of_true rfl hready
  · exact iff_of_false (by decide) hready
  · exact iff_of_false (by decide) hready

/-- **The body of an enum constant** is recognised behind the constant and behind any arguments
of it, whatever is in them, if and only if no list of constants of another enum is opened in the
arguments. -/
theorem opens_constantBody_iff {ctx : Context} {pieces : List Piece} {constant brace : Step}
    {arguments rest : List Step}
    (hsteps : ctx.steps pieces = constant :: arguments ++ brace :: rest)
    (hconstants : ctx.inConstants = true) (hheader : ∀ body, ctx.header ≠ some (body, ctx.depth))
    (hconstant : constant.kind = .enumConstant)
    (harguments : arguments = [] ∨ ∃ opening inside closing,
      arguments = opening :: (inside ++ [closing]) ∧ Arguments ctx.depth opening inside closing)
    (hbrace : brace.kind = .leftBrace) :
    brace.Opens .enumConstantBody ↔ ∀ s ∈ arguments, ¬ s.Opens (.enumBody true) := by
  have hrun := Leads.of_steps ctx pieces
  rw [hsteps, List.cons_append, leads_cons_iff] at hrun
  obtain ⟨rfl, hsignificant, hrun⟩ := hrun
  obtain ⟨mid, hargumentsRun, hrun⟩ := leads_append_iff.mp hrun
  obtain ⟨rfl, -, -⟩ := leads_cons_iff.mp hrun
  have hready := Step.constantReady_of_enumConstant hconstants hconstant
  have hregions : constant.after.regions = constant.before.regions := by
    rw [constant.regions_after, hconstant]
    rfl
  have hheader' : ∀ body, constant.after.header ≠ some (body, constant.before.depth) := by
    have hdeclares : ¬ constant.Declares :=
      Step.not_declares_of_kind (by rw [hconstant]; decide)
    refine (leads_cons_iff.mpr ⟨rfl, hsignificant, .nil _⟩).header_ne hheader ?_
    exact List.forall_mem_singleton.mpr fun h => absurd h hdeclares
  obtain ⟨hbraceRegions, hbraceHeader, hbraceReady⟩ :
      brace.before.regions = constant.before.regions ∧
        (∀ body, brace.before.header ≠ some (body, constant.before.depth)) ∧
        (brace.before.constantReady = true ↔ ∀ s ∈ arguments, ¬ s.Opens (.enumBody true)) := by
    rcases harguments with rfl | ⟨opening, inside, closing, rfl, harguments⟩
    · rw [← leads_nil_iff.mp hargumentsRun]
      exact ⟨hregions, hheader', iff_of_true hready fun s hs => absurd hs List.not_mem_nil⟩
    · obtain ⟨hlast, hiff⟩ := harguments.constantReady_iff hargumentsRun
        ((Context.inConstants_congr hregions).trans hconstants) hready
      exact ⟨hlast.trans hregions, harguments.header_ne hargumentsRun hheader',
        hiff.trans harguments.opens_iff.symm⟩
  have hbraceDepth : brace.before.depth = constant.before.depth :=
    congrArg List.length hbraceRegions
  rw [← hbraceDepth] at hbraceHeader
  rw [Step.opens_iff_of_leftBrace hbrace, Context.braceRegion_eq_enumConstantBody_iff
    ((Context.inConstants_congr hbraceRegions).trans hconstants) hbraceHeader, hbraceReady]

/-- The steps of an enum behind its brace: a constant with a lambda and an anonymous class among
its arguments, and its body. -/
def constantWithClass : List Step :=
  TokenStream.stepsBehind 5 "enum E { A(x -> { f(); }, new T() { int g; }) { int h; } }"

/-- The braces among the arguments of the constant do not matter. -/
theorem opens_constantBody_iff_class :
    ∃ (constant opening closing brace : Step) (inside rest : List Step),
      constantWithClass =
        constant :: (opening :: (inside ++ [closing])) ++ brace :: rest ∧
      constant.text = "A" ∧ (∃ s ∈ inside, s.Opens .block) ∧ (∃ s ∈ inside, s.Opens .classBody) ∧
      brace.Opens .enumConstantBody := by
  obtain ⟨first, last, final, hsteps, htext, hblock, hclass, hconstants, hheader, hconstant,
      harguments, hbrace, hnone⟩ :
      ∃ first : 1 < constantWithClass.length, ∃ last : 20 < constantWithClass.length,
        ∃ final : 21 < constantWithClass.length,
        let constant := constantWithClass.get ⟨0, Nat.lt_trans Nat.one_pos first⟩
        let opening := constantWithClass.get ⟨1, first⟩
        let inside := (constantWithClass.take 20).drop 2
        let closing := constantWithClass.get ⟨20, last⟩
        let brace := constantWithClass.get ⟨21, final⟩
        constantWithClass =
          constant :: (opening :: (inside ++ [closing])) ++ brace :: constantWithClass.drop 22 ∧
        constant.text = "A" ∧ (∃ s ∈ inside, s.Opens .block) ∧
        (∃ s ∈ inside, s.Opens .classBody) ∧ constant.before.inConstants = true ∧
        constant.before.header = none ∧ constant.kind = .enumConstant ∧
        Arguments constant.before.depth opening inside closing ∧ brace.kind = .leftBrace ∧
        ∀ s ∈ opening :: (inside ++ [closing]), ¬ s.Opens (.enumBody true) := by
    decide +kernel
  refine ⟨_, _, _, _, _, _, hsteps, htext, hblock, hclass, ?_⟩
  refine (opens_constantBody_iff hsteps hconstants (fun body h => ?_) hconstant
    (.inr ⟨_, _, _, rfl, harguments⟩) hbrace).mpr hnone
  cases h.symm.trans hheader

/-- The steps of an enum behind its brace: a constant with another enum among its arguments, and
its body. -/
def constantWithEnum : List Step :=
  TokenStream.stepsBehind 5 "enum E { A(new Object() { enum N { X } }) { int f; } }"

/-- The body of this constant is taken for a block: the other enum has cleared the flag. -/
theorem constantWithEnum_opens_block :
    ∃ (constant opening closing brace : Step) (inside rest : List Step),
      constantWithEnum = constant :: (opening :: (inside ++ [closing])) ++ brace :: rest ∧
      constant.before.inConstants = true ∧ constant.before.header = none ∧
      constant.kind = .enumConstant ∧ Arguments constant.before.depth opening inside closing ∧
      brace.kind = .leftBrace ∧ brace.Opens .block ∧ ¬ brace.Opens .enumConstantBody := by
  obtain ⟨first, last, final, h⟩ :
      ∃ first : 1 < constantWithEnum.length, ∃ last : 13 < constantWithEnum.length,
        ∃ final : 14 < constantWithEnum.length,
        let constant := constantWithEnum.get ⟨0, Nat.lt_trans Nat.one_pos first⟩
        let opening := constantWithEnum.get ⟨1, first⟩
        let inside := (constantWithEnum.take 13).drop 2
        let closing := constantWithEnum.get ⟨13, last⟩
        let brace := constantWithEnum.get ⟨14, final⟩
        constantWithEnum =
          constant :: (opening :: (inside ++ [closing])) ++ brace :: constantWithEnum.drop 15 ∧
        constant.before.inConstants = true ∧ constant.before.header = none ∧
        constant.kind = .enumConstant ∧ Arguments constant.before.depth opening inside closing ∧
        brace.kind = .leftBrace ∧ brace.Opens .block ∧ ¬ brace.Opens .enumConstantBody := by
    decide +kernel
  exact ⟨_, _, _, _, _, _, h⟩

end JavaHighlight
