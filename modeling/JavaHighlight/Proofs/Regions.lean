import JavaHighlight.Proofs.Kinds
import JavaHighlight.Proofs.Visit

/-!
# What a token does to the open regions

Only brackets and semicolons change the open regions (`Context.regionsAfter_of_neutral`), and
only an opening angle bracket opens type arguments
(`Context.not_mem_regionsAfter`). For the latter, the header of a declaration has to wait for
a body and for nothing else, which every token keeps (`Context.HeaderWaitsForBody.observe`).
-/

namespace JavaHighlight.Context

theorem regions_observe (ctx : Context) (kind : TokenKind) (text : String)
    (opensLambda : Bool) :
    (ctx.observe kind text opensLambda).regions = ctx.regionsAfter kind opensLambda := by
  unfold observe
  split
  · next h => cases kind <;> first | rfl | exact absurd h (by decide)
  · rfl

theorem regionsAfter_of_neutral {kind : TokenKind} (h : kind ∉ TokenKind.delimiters)
    (hangle : kind.isAngle = false) (ctx : Context) (opensLambda : Bool) :
    ctx.regionsAfter kind opensLambda = ctx.regions := by
  cases kind <;> first | rfl | exact absurd (by decide) h | cases hangle

theorem regionsAfter_cases (ctx : Context) (kind : TokenKind) (opensLambda : Bool) :
    (∃ region, ctx.regionsAfter kind opensLambda = region :: ctx.regions) ∨
      ctx.regionsAfter kind opensLambda = ctx.regions.tail ∨
      ctx.regionsAfter kind opensLambda = ctx.regions ∨
      ctx.regionsAfter kind opensLambda = endConstants ctx.regions := by
  unfold regionsAfter
  split
  · exact .inl ⟨_, rfl⟩
  · exact .inl ⟨_, rfl⟩
  · exact .inl ⟨_, rfl⟩
  · exact .inr (.inl rfl)
  · exact .inr (.inl rfl)
  · split
    · exact .inr (.inl rfl)
    · exact .inr (.inr (.inl rfl))
  · exact .inr (.inr (.inr rfl))
  · exact .inr (.inr (.inl rfl))

/-! ## Headers wait for bodies -/

theorem declares?_of_ne_keyword {kind : TokenKind} (h : kind ≠ .keyword) (ctx : Context)
    (text : String) : ctx.declares? kind text = none :=
  if_neg fun hdeclares => h hdeclares.1

theorem headerAfter_moduleKeyword (ctx : Context) :
    ctx.headerAfter .moduleKeyword "module" = some (.moduleBody, ctx.depth) := by
  unfold headerAfter
  rw [declares?_of_ne_keyword (by decide)]
  exact if_pos rfl

/-- A header that waits for something waits for a body. -/
def HeaderWaitsForBody (ctx : Context) : Prop :=
  ∀ header ∈ ctx.header, header.1.isBody = true

theorem headerWaitsForBody_initial : initial.HeaderWaitsForBody := by
  intro header h
  cases h

theorem isBody_of_declaredBody? {word : String} {body : Region}
    (h : declaredBody? word = some body) : body.isBody = true := by
  unfold declaredBody? at h
  split_ifs at h <;> cases h <;> rfl

theorem HeaderWaitsForBody.observe {ctx : Context} (h : ctx.HeaderWaitsForBody)
    (kind : TokenKind) (text : String) (opensLambda : Bool) :
    (ctx.observe kind text opensLambda).HeaderWaitsForBody := by
  have hreached : ∀ header ∈ ctx.headerReached, header.1.isBody = true := by
    intro header hheader
    exact h header (Option.mem_filter_iff.mp hheader).1
  unfold Context.observe
  split
  · exact h
  · intro header hheader
    change header ∈ ctx.headerAfter kind text at hheader
    unfold headerAfter at hheader
    split at hheader
    · next body hbody =>
      cases hheader
      unfold declares? at hbody
      split_ifs at hbody
      exact isBody_of_declaredBody? hbody
    · split at hheader
      · split at hheader
        · cases hheader; rfl
        · exact h header hheader
      · exact hreached header hheader
      · exact hreached header hheader
      · exact h header hheader

theorem HeaderWaitsForBody.observePieces {ctx : Context} (h : ctx.HeaderWaitsForBody)
    (pieces : List Piece) : (ctx.observePieces pieces).HeaderWaitsForBody := by
  induction pieces generalizing ctx with
  | nil => exact h
  | cons piece pieces ih => exact ih (h.observe _ _ _)

/-! ## Who opens type arguments -/

theorem bracket_of_headerBody? {ctx : Context} (h : ctx.HeaderWaitsForBody) {body : Region}
    (hbody : ctx.headerBody? = some body) : body.bracket = .brace := by
  unfold headerBody? at hbody
  split at hbody
  · next header depth hheader =>
    split_ifs at hbody
    cases hbody
    exact of_decide_eq_true (h _ hheader)
  · cases hbody

theorem bracket_braceRegion {ctx : Context} (h : ctx.HeaderWaitsForBody) :
    ctx.braceRegion.bracket = .brace := by
  unfold braceRegion
  cases hbody : ctx.headerBody? with
  | none =>
    rw [Option.getD_none, bodyWithoutHeader]
    split_ifs <;> rfl
  | some body =>
    rw [Option.getD_some]
    exact bracket_of_headerBody? h hbody

theorem bracket_parenRegion (ctx : Context) (opensLambda : Bool) :
    (ctx.parenRegion opensLambda).bracket = .paren := by
  unfold parenRegion
  split_ifs <;> rfl

theorem ne_typeArgs_of_bracket {region : Region} (h : region.bracket ≠ .angle) :
    region ≠ .typeArgs := by
  rintro rfl
  exact h rfl

theorem mem_endConstants {regions : List Region} (h : .typeArgs ∈ endConstants regions) :
    .typeArgs ∈ regions := by
  unfold endConstants at h
  split at h
  · simpa using h
  · exact h

/-- Where no type arguments are open, only an opening angle bracket opens some. -/
theorem not_mem_regionsAfter {ctx : Context} (hheader : ctx.HeaderWaitsForBody)
    (h : .typeArgs ∉ ctx.regions) {kind : TokenKind} (hkind : kind ≠ .genericOpen)
    (opensLambda : Bool) : .typeArgs ∉ ctx.regionsAfter kind opensLambda := by
  unfold regionsAfter
  split
  · rw [List.mem_cons, not_or]
    have hne : ctx.braceRegion ≠ .typeArgs :=
      ne_typeArgs_of_bracket (by simp [bracket_braceRegion hheader])
    exact ⟨hne.symm, h⟩
  · rw [List.mem_cons, not_or]
    have hne : ctx.parenRegion opensLambda ≠ .typeArgs :=
      ne_typeArgs_of_bracket (by simp [bracket_parenRegion])
    exact ⟨hne.symm, h⟩
  · exact absurd rfl hkind
  · exact fun hmem => h (List.mem_of_mem_tail hmem)
  · exact fun hmem => h (List.mem_of_mem_tail hmem)
  · split_ifs
    · exact fun hmem => h (List.mem_of_mem_tail hmem)
    · exact h
  · exact fun hmem => h (mem_endConstants hmem)
  · exact h

/-! ## Who fails to close -/

theorem issue?_eq_some {ctx : Context} {kind : TokenKind} {issue : BracketIssue}
    (h : ctx.issue? kind = some issue) :
    ∃ bracket, closes? kind = some bracket ∧
      (ctx.top = none ∧ issue = .unexpectedCloser bracket.closer ∨
        ∃ region, ctx.top = some region ∧ region.bracket ≠ bracket ∧
          issue = .mismatched region.closer bracket.closer) := by
  unfold issue? at h
  split at h
  · cases h
  · next bracket hbracket =>
    refine ⟨bracket, hbracket, ?_⟩
    split at h
    · next htop =>
      cases h
      exact .inl ⟨htop, rfl⟩
    · next region htop =>
      split_ifs at h with hregion
      cases h
      exact .inr ⟨region, htop, hregion, rfl⟩

theorem mem_delimiters_of_closes? {kind : TokenKind} {bracket : Bracket}
    (h : closes? kind = some bracket) : kind ∈ TokenKind.delimiters := by
  unfold closes? at h
  split at h
  · decide
  · decide
  · cases h

theorem mem_regions_of_top {ctx : Context} {region : Region} (h : ctx.top = some region) :
    region ∈ ctx.regions :=
  List.mem_of_mem_head? h

end JavaHighlight.Context
