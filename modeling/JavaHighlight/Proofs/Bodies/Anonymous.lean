import JavaHighlight.Proofs.Bodies.Headers

/-!
# Bodies of anonymous classes

The depths of the open `new` expressions are kept in a stack, and most tokens that close or end
something throw entries away. For a `new` expression at some depth what matters is that its entry
is still there and that all those in front of it are at least as deep (`NewWaits`). The tokens of
the type keep this, and so do all tokens in the arguments, as none of them closes anything at
that depth or ends a statement there. At the parenthesis that closes the arguments the entries of
the `new` expressions further in are thrown away, and an entry of the right depth comes first
(`Step.closesNew_of_newWaits`).
-/

namespace JavaHighlight

/-- A `new` expression of the given depth is open, and those in front of it are as deep at
least. -/
inductive NewWaits (depth : Nat) : List Nat → Prop
  | first (outer : List Nat) : NewWaits depth (depth :: outer)
  | behind {inner : Nat} {depths : List Nat} (le : depth ≤ inner) (rest : NewWaits depth depths) :
    NewWaits depth (inner :: depths)

namespace NewWaits

variable {depth : Nat} {depths : List Nat}

/-- Entries can be thrown away, if the one of the given depth is not among them. -/
theorem filter {keeps : Nat → Bool} (hkeeps : keeps depth = true) (h : NewWaits depth depths) :
    NewWaits depth (depths.filter keeps) := by
  induction h with
  | first outer =>
    rw [List.filter_cons_of_pos hkeeps]
    exact .first _
  | @behind inner _ le _ ih =>
    rw [List.filter_cons]
    split
    · exact .behind le ih
    · exact ih

theorem tail (hhead : depths.head? ≠ some depth) (h : NewWaits depth depths) :
    NewWaits depth depths.tail := by
  cases h with
  | first outer => exact absurd rfl hhead
  | behind le rest => exact rest

theorem head?_filter (h : NewWaits depth depths) :
    (depths.filter (· ≤ depth)).head? = some depth := by
  induction h with
  | first outer => rw [List.filter_cons_of_pos (by simp), List.head?_cons]
  | @behind inner depths le _ ih =>
    rw [List.filter_cons]
    split
    · next hle => rw [List.head?_cons, Nat.le_antisymm (of_decide_eq_true hle) le]
    · exact ih

end NewWaits

/-- Only the keyword `new` and tokens that close or end something touch the open expressions. -/
theorem Context.newDepthsAfter_of_not_delimiter {kind : TokenKind}
    (h : kind ∉ TokenKind.delimiters) (hnew : kind ≠ .keywordNew) (ctx : Context) :
    ctx.newDepthsAfter kind = ctx.newDepths := by
  cases kind <;> first | rfl | exact absurd (by decide) h | exact absurd rfl hnew

namespace Step

variable {s : Step} {depth : Nat}

theorem newWaits_of_keywordNew (h : s.kind = .keywordNew) :
    NewWaits s.before.depth s.after.newDepths := by
  rw [newDepths_after (by rw [h]; rfl), h]
  exact .first _

theorem newWaits_of_not_delimiter (hsignificant : s.kind.isTrivia = false)
    (hkind : s.kind ∉ TokenKind.delimiters) (hdepth : depth ≤ s.before.depth)
    (h : NewWaits depth s.before.newDepths) : NewWaits depth s.after.newDepths := by
  by_cases hnew : s.kind = .keywordNew
  · rw [newDepths_after hsignificant, hnew]
    exact .behind hdepth h
  · rw [newDepths_after hsignificant, Context.newDepthsAfter_of_not_delimiter hkind hnew]
    exact h

/-- Tokens in the arguments keep the expression open: what they close or end is further in. -/
theorem newWaits_of_inside (hsignificant : s.kind.isTrivia = false)
    (hbefore : depth < s.before.depth) (hafter : depth < s.after.depth)
    (h : NewWaits depth s.before.newDepths) : NewWaits depth s.after.newDepths := by
  by_cases hkind : s.kind ∈ TokenKind.delimiters
  · rw [newDepths_after hsignificant]
    have hends : NewWaits depth (s.before.newDepths.filter (· < s.before.depth)) :=
      h.filter (decide_eq_true hbefore)
    have houtside (hcloses : s.kind = .rightBrace ∨ s.kind = .rightParen) :
        depth < s.before.depth - 1 ∧ NewWaits depth s.before.newDepthsOutside := by
      rw [depth_after_of_closes hcloses] at hafter
      exact ⟨hafter, h.filter (decide_eq_true (Nat.le_of_lt hafter))⟩
    simp only [TokenKind.delimiters, List.mem_cons, List.not_mem_nil, or_false] at hkind
    rcases hkind with hkind | hkind | hkind | hkind | hkind
    · rw [hkind]
      exact hends
    · rw [hkind]
      exact (houtside (.inl hkind)).2
    · rw [hkind]
      exact h
    · -- the expression whose arguments are closed here is another one, which comes first
      obtain ⟨hdeeper, hwaits⟩ := houtside (.inr hkind)
      rw [hkind, Context.newDepthsAfter]
      split
      · next hcloses =>
        have hhead := of_decide_eq_true ((Bool.and_eq_true _ _).mp hcloses).2
        refine hwaits.tail ?_
        rw [hhead]
        exact fun heq => absurd (Option.some.inj heq) (Nat.ne_of_gt hdeeper)
      · exact hwaits
    · rw [hkind]
      exact hends
  · exact newWaits_of_not_delimiter hsignificant hkind (Nat.le_of_lt hbefore) h

theorem anonymousBodyReady_of_newWaits (hkind : s.kind = .rightParen)
    (hdepth : s.before.depth = depth + 1) (h : NewWaits depth s.before.newDepths) :
    s.after.anonymousBodyReady = true := by
  have hhead : s.before.newDepthsOutside.head? = some (s.before.depth - 1) := by
    rw [Context.newDepthsOutside, hdepth, Nat.add_sub_cancel]
    exact h.head?_filter
  rw [anonymousBodyReady_after (by rw [hkind]; rfl), hkind, Context.closesNew, hhead]
  simp

end Step

/-! ## The brace behind a constructor call -/

theorem Arguments.anonymousBodyReady {depth : Nat} {ctx last : Context} {opening closing : Step}
    {inside : List Step} (h : Arguments depth opening inside closing)
    (hrun : Leads ctx (opening :: (inside ++ [closing])) last)
    (hnew : NewWaits depth ctx.newDepths) : last.anonymousBodyReady = true := by
  obtain ⟨rfl, hinside, rfl⟩ := Arguments.run hrun
  have hopening : NewWaits depth opening.after.newDepths := by
    rw [Step.newDepths_after (by rw [h.opens]; rfl), h.opens]
    exact hnew
  have hbefore := hinside.depth_le_before (Nat.le_of_eq h.depth_opening.symm) h.stays
  have hclosing : NewWaits depth closing.before.newDepths :=
    hinside.keeps (P := fun c => NewWaits depth c.newDepths) hopening
      fun s hs hsignificant => Step.newWaits_of_inside hsignificant (hbefore s hs) (h.stays s hs)
  exact Step.anonymousBodyReady_of_newWaits h.closes h.innermost hclosing

/-- **The body of an anonymous class** is recognised behind any type and any arguments of a `new`
expression, unless the header of a declaration waits beside the expression or a constant is ready
for its body. -/
theorem opens_anonymousBody {ctx : Context} {pieces : List Piece}
    {keyword opening closing brace : Step} {type inside rest : List Step}
    (hsteps : ctx.steps pieces =
      keyword :: type ++ (opening :: (inside ++ [closing])) ++ brace :: rest)
    (hkeyword : keyword.kind = .keywordNew)
    (htype : ∀ s ∈ type, s.kind ∉ TokenKind.delimiters ∧ ctx.depth ≤ s.after.depth)
    (harguments : Arguments ctx.depth opening inside closing) (hbrace : brace.kind = .leftBrace)
    (hheader : ∀ body, brace.before.header ≠ some (body, ctx.depth))
    (hconstant : ¬ (brace.before.inConstants = true ∧ brace.before.constantReady = true)) :
    brace.Opens .classBody := by
  have hrun := Leads.of_steps ctx pieces
  rw [hsteps, leads_append_iff] at hrun
  obtain ⟨mid, hrun, hbraceRun⟩ := hrun
  obtain ⟨rfl, -, -⟩ := leads_cons_iff.mp hbraceRun
  obtain ⟨mid, hrun, hargumentsRun⟩ := leads_append_iff.mp hrun
  obtain ⟨rfl, -, htypeRun⟩ := leads_cons_iff.mp hrun
  have hdepth : keyword.after.depth = keyword.before.depth := by
    rw [Step.depth_after, hkeyword]
    rfl
  have hbefore := htypeRun.depth_le_before (Nat.le_of_eq hdepth.symm) fun s hs => (htype s hs).2
  have hnew : NewWaits keyword.before.depth mid.newDepths :=
    htypeRun.keeps (P := fun c => NewWaits keyword.before.depth c.newDepths)
      (Step.newWaits_of_keywordNew hkeyword) fun s hs hsignificant =>
        Step.newWaits_of_not_delimiter hsignificant (htype s hs).1 (hbefore s hs)
  have hready := harguments.anonymousBodyReady hargumentsRun hnew
  have hbraceDepth : brace.before.depth = keyword.before.depth := by
    rw [← (Arguments.run hargumentsRun).2.2, harguments.depth_closing]
  rw [← hbraceDepth] at hheader
  rw [Step.opens_iff_of_leftBrace hbrace, Context.braceRegion_of_no_header hheader,
    Context.bodyWithoutHeader, if_neg (by rwa [Bool.and_eq_true]), if_pos hready]

/-- The steps of a `new` expression with type arguments and, among its arguments, one without
parentheses, a lambda and another class body. -/
def classWithArguments : List Step :=
  TokenStream.stepsBehind 4 "a = new A<B>(new int[1], x -> { f(); }, new C() { ; }) { int g; }"

/-- What the type and the arguments open and close does not matter. -/
theorem opens_anonymousBody_arguments :
    ∃ (keyword opening closing brace : Step) (type inside rest : List Step),
      classWithArguments =
        keyword :: type ++ (opening :: (inside ++ [closing])) ++ brace :: rest ∧
      keyword.text = "new" ∧ (∃ s ∈ type, s.Opens .typeArgs) ∧ (∃ s ∈ inside, s.Opens .block) ∧
      (∃ s ∈ inside, s.Opens .classBody) ∧ brace.Opens .classBody := by
  obtain ⟨first, last, final, hsteps, htext, hangle, hblock, hclass, hkeyword, htype, harguments,
      hbrace, hheader, hconstant⟩ :
      ∃ first : 5 < classWithArguments.length, ∃ last : 28 < classWithArguments.length,
        ∃ final : 29 < classWithArguments.length,
        let keyword := classWithArguments.get ⟨0, Nat.zero_lt_of_lt first⟩
        let type := (classWithArguments.take 5).tail
        let opening := classWithArguments.get ⟨5, first⟩
        let inside := (classWithArguments.take 28).drop 6
        let closing := classWithArguments.get ⟨28, last⟩
        let brace := classWithArguments.get ⟨29, final⟩
        classWithArguments = keyword :: type ++ (opening :: (inside ++ [closing])) ++
          brace :: classWithArguments.drop 30 ∧
        keyword.text = "new" ∧ (∃ s ∈ type, s.Opens .typeArgs) ∧
        (∃ s ∈ inside, s.Opens .block) ∧ (∃ s ∈ inside, s.Opens .classBody) ∧
        keyword.kind = .keywordNew ∧
        (∀ s ∈ type, s.kind ∉ TokenKind.delimiters ∧ keyword.before.depth ≤ s.after.depth) ∧
        Arguments keyword.before.depth opening inside closing ∧ brace.kind = .leftBrace ∧
        brace.before.header = none ∧
        ¬ (brace.before.inConstants = true ∧ brace.before.constantReady = true) := by
    decide +kernel
  refine ⟨_, _, _, _, _, _, _, hsteps, htext, hangle, hblock, hclass, ?_⟩
  refine opens_anonymousBody hsteps hkeyword htype harguments hbrace (fun body h => ?_) hconstant
  cases h.symm.trans hheader

end JavaHighlight
