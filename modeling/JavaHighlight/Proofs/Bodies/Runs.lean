import JavaHighlight.Proofs.Steps

/-!
# Runs of steps

Steps lead from one context to another if each of them starts where the one in front of it ends
(`Leads`). The steps of any pieces do (`Leads.of_steps`), and those of a whole source are among
them (`TokenStream.steps_pieces`). A run can be cut between any two of its steps
(`leads_append_iff`), and what each of its steps keeps holds behind it (`Leads.keeps`).

A step opens or closes one region at most, so that the depth falls below a bound only in a step
that starts just at the bound (`Leads.depth_le_after`).
-/

namespace JavaHighlight

/-- Steps that lead from one context to another. -/
inductive Leads : Context → List Step → Context → Prop
  | nil (ctx : Context) : Leads ctx [] ctx
  | cons {s : Step} {steps : List Step} {last : Context} (significant : s.kind.isTrivia = false)
    (rest : Leads s.after steps last) : Leads s.before (s :: steps) last

variable {ctx last : Context} {s : Step} {steps front back : List Step}

theorem leads_nil_iff : Leads ctx [] last ↔ ctx = last := by
  constructor
  · intro h
    cases h
    rfl
  · rintro rfl
    exact .nil ctx

theorem leads_cons_iff : Leads ctx (s :: steps) last ↔
    s.before = ctx ∧ s.kind.isTrivia = false ∧ Leads s.after steps last := by
  constructor
  · intro h
    cases h with
    | cons significant rest => exact ⟨rfl, significant, rest⟩
  · rintro ⟨rfl, significant, rest⟩
    exact .cons significant rest

theorem leads_append_iff : Leads ctx (front ++ back) last ↔
    ∃ mid, Leads ctx front mid ∧ Leads mid back last := by
  induction front generalizing ctx with
  | nil =>
    constructor
    · exact fun h => ⟨ctx, .nil ctx, h⟩
    · rintro ⟨mid, hfront, hback⟩
      rw [leads_nil_iff] at hfront
      exact hfront ▸ hback
  | cons s front ih =>
    rw [List.cons_append, leads_cons_iff, ih]
    constructor
    · rintro ⟨hbefore, significant, mid, hfront, hback⟩
      exact ⟨mid, leads_cons_iff.mpr ⟨hbefore, significant, hfront⟩, hback⟩
    · rintro ⟨mid, hfront, hback⟩
      obtain ⟨hbefore, significant, hfront⟩ := leads_cons_iff.mp hfront
      exact ⟨hbefore, significant, mid, hfront, hback⟩

namespace Leads

theorem of_steps (ctx : Context) (pieces : List Piece) :
    Leads ctx (ctx.steps pieces) (ctx.observePieces pieces) := by
  induction pieces generalizing ctx with
  | nil => exact .nil ctx
  | cons piece pieces ih =>
    rw [Context.observePieces_cons]
    cases htrivia : piece.kind.isTrivia with
    | true =>
      have hctx : ctx.observePiece piece = ctx := Context.observe_of_isTrivia htrivia ctx _ _
      rw [Context.steps_cons_of_isTrivia htrivia, hctx]
      exact ih ctx
    | false =>
      rw [Context.steps_cons_of_significant htrivia]
      exact leads_cons_iff.mpr ⟨rfl, htrivia, ih _⟩

/-- What each step of a run keeps holds behind the run. -/
theorem keeps {P : Context → Prop} (h : Leads ctx steps last) (hctx : P ctx)
    (kept : ∀ s ∈ steps, s.kind.isTrivia = false → P s.before → P s.after) : P last := by
  induction h with
  | nil => exact hctx
  | cons significant _ ih =>
    rw [List.forall_mem_cons] at kept
    exact ih (kept.1 significant hctx) kept.2

end Leads

/-! ## Pieces of a stream -/

theorem Context.steps_append (ctx : Context) (pieces pieces' : List Piece) :
    ctx.steps (pieces ++ pieces') =
      ctx.steps pieces ++ (ctx.observePieces pieces).steps pieces' := by
  induction pieces generalizing ctx with
  | nil => rfl
  | cons piece pieces ih =>
    rw [List.cons_append, observePieces_cons]
    cases htrivia : piece.kind.isTrivia with
    | true =>
      have hctx : ctx.observePiece piece = ctx := observe_of_isTrivia htrivia ctx _ _
      rw [steps_cons_of_isTrivia htrivia, steps_cons_of_isTrivia htrivia, hctx, ih]
    | false =>
      rw [steps_cons_of_significant htrivia, steps_cons_of_significant htrivia, ih,
        List.cons_append]

namespace Progress

def pieces (mode : Mode) (index : LineIndex) (progress : Progress) (os : List Occurrence) :
    List Piece :=
  (progress.visits mode index os).flatMap fun v => (v.reading mode).pieces

theorem steps_pieces (mode : Mode) (index : LineIndex) (progress : Progress)
    (os : List Occurrence) :
    progress.context.steps (progress.pieces mode index os) = progress.steps mode index os := by
  induction os generalizing progress with
  | nil => rfl
  | cons o os ih =>
    have hrest := ih (progress.emit mode index o).2
    rw [context_emit] at hrest
    show progress.context.steps ((Reading.ofLexeme mode progress.context o.lexeme o.ahead).pieces
      ++ (progress.emit mode index o).2.pieces mode index os) = _
    rw [Context.steps_append]
    exact congrArg (_ ++ ·) hrest

end Progress

namespace TokenStream

def pieces (s : TokenStream) : List Piece :=
  s.progress.pieces .whole s.index s.upcoming

theorem steps_pieces (source : String) (offset : Nat) (stoppable : Bool) :
    Context.initial.steps (openAt source offset stoppable).pieces =
      (openAt source offset stoppable).steps := by
  let s := openAt source offset stoppable
  exact Progress.steps_pieces .whole s.index s.progress s.upcoming

/-- The steps of a source behind its first pieces. -/
def stepsBehind (count : Nat) (source : String) : List Step :=
  let pieces := (openAt source 0 false).pieces
  (Context.initial.observePieces (pieces.take count)).steps (pieces.drop count)

end TokenStream

/-! ## Depth -/

namespace Step

theorem depth_after (s : Step) :
    s.after.depth = (s.before.regionsAfter s.kind s.piece.opensLambda).length :=
  congrArg List.length s.regions_after

theorem depth_before_le (s : Step) : s.before.depth ≤ s.after.depth + 1 := by
  have hends : (Context.endConstants s.before.regions).length = s.before.regions.length := by
    unfold Context.endConstants
    split
    · next hregions => rw [hregions, List.length_cons, List.length_cons]
    · rfl
  rw [depth_after, Context.depth]
  rcases s.before.regionsAfter_cases s.kind s.piece.opensLambda with ⟨region, h⟩ | h | h | h
  · rw [h, List.length_cons]
    omega
  · rw [h, List.length_tail]
    omega
  · rw [h]
    omega
  · rw [h, hends]
    omega

/-- A closing brace or parenthesis closes whatever is innermost. -/
theorem depth_after_of_closes (h : s.kind = .rightBrace ∨ s.kind = .rightParen) :
    s.after.depth = s.before.depth - 1 := by
  have htail : s.before.regionsAfter s.kind s.piece.opensLambda = s.before.regions.tail := by
    rcases h with h | h <;> rw [h] <;> rfl
  rw [depth_after, htail, List.length_tail, Context.depth]

/-- Regions that a semicolon would not change stay as they are until one of them is closed. -/
theorem suffix_after {base : List Region} (h : base <:+ s.before.regions)
    (hends : Context.endConstants base = base) (hdepth : base.length ≤ s.after.depth) :
    base <:+ s.after.regions := by
  rw [depth_after] at hdepth
  rw [regions_after]
  rcases s.before.regionsAfter_cases s.kind s.piece.opensLambda with
    ⟨region, hregions⟩ | hregions | hregions | hregions <;> rw [hregions] at hdepth ⊢
  · exact h.trans (List.suffix_cons region _)
  · cases hbefore : s.before.regions with
    | nil => rwa [hbefore] at h
    | cons region regions =>
      rw [hbefore, List.tail_cons] at hdepth
      rw [hbefore, List.suffix_cons_iff] at h
      rcases h with rfl | h
      · exact absurd hdepth (Nat.not_succ_le_self _)
      · exact h
  · exact h
  · unfold Context.endConstants
    split
    · next hbefore =>
      rw [hbefore, List.suffix_cons_iff] at h
      rcases h with rfl | h
      · rw [Context.endConstants] at hends
        exact hends ▸ List.suffix_rfl
      · exact h.trans (List.suffix_cons _ _)
    · exact h

end Step

namespace Leads

variable {depth : Nat}

theorem depth_le_after (h : Leads ctx steps last) (hctx : depth ≤ ctx.depth)
    (hfalls : ∀ s ∈ steps, ¬ (s.before.depth = depth ∧ s.after.depth < depth)) :
    ∀ s ∈ steps, depth ≤ s.after.depth := by
  induction h with
  | nil => exact fun s hs => absurd hs List.not_mem_nil
  | @cons s _ _ _ _ ih =>
    rw [List.forall_mem_cons] at hfalls ⊢
    have hstep := s.depth_before_le
    have hnot := hfalls.1
    have hafter : depth ≤ s.after.depth := by omega
    exact ⟨hafter, ih hafter hfalls.2⟩

theorem depth_le_before (h : Leads ctx steps last) (hctx : depth ≤ ctx.depth)
    (hafter : ∀ s ∈ steps, depth ≤ s.after.depth) : ∀ s ∈ steps, depth ≤ s.before.depth := by
  induction h with
  | nil => exact fun s hs => absurd hs List.not_mem_nil
  | cons _ _ ih =>
    rw [List.forall_mem_cons] at hafter ⊢
    exact ⟨hctx, ih hafter.1 hafter.2⟩

theorem depth_le_last (h : Leads ctx steps last) (hctx : depth ≤ ctx.depth)
    (hafter : ∀ s ∈ steps, depth ≤ s.after.depth) : depth ≤ last.depth :=
  h.keeps (P := fun c => depth ≤ c.depth) hctx fun s hs _ _ => hafter s hs

end Leads

/-! ## Arguments -/

/-- Arguments at a depth: a parenthesis, steps behind each of which it is still open, and the
parenthesis that closes it. -/
structure Arguments (depth : Nat) (opening : Step) (inside : List Step) (closing : Step) :
    Prop where
  opens : opening.kind = .leftParen
  outside : opening.before.depth = depth
  stays : ∀ s ∈ inside, depth < s.after.depth
  closes : closing.kind = .rightParen
  innermost : closing.before.depth = depth + 1

instance (depth : Nat) (opening : Step) (inside : List Step) (closing : Step) :
    Decidable (Arguments depth opening inside closing) :=
  decidable_of_iff (opening.kind = .leftParen ∧ opening.before.depth = depth ∧
      (∀ s ∈ inside, depth < s.after.depth) ∧ closing.kind = .rightParen ∧
      closing.before.depth = depth + 1)
    ⟨fun ⟨h₁, h₂, h₃, h₄, h₅⟩ => ⟨h₁, h₂, h₃, h₄, h₅⟩,
      fun h => ⟨h.opens, h.outside, h.stays, h.closes, h.innermost⟩⟩

namespace Arguments

variable {depth : Nat} {opening closing : Step} {inside : List Step}

/-- A run through arguments, cut behind the first parenthesis and in front of the last one. -/
theorem run (hrun : Leads ctx (opening :: (inside ++ [closing])) last) :
    opening.before = ctx ∧ Leads opening.after inside closing.before ∧ closing.after = last := by
  obtain ⟨hbefore, -, hrun⟩ := leads_cons_iff.mp hrun
  obtain ⟨mid, hinside, hclosing⟩ := leads_append_iff.mp hrun
  obtain ⟨rfl, -, hlast⟩ := leads_cons_iff.mp hclosing
  exact ⟨hbefore, hinside, leads_nil_iff.mp hlast⟩

theorem regions_opening (h : Arguments depth opening inside closing) :
    opening.after.regions =
      opening.before.parenRegion opening.piece.opensLambda :: opening.before.regions := by
  rw [opening.regions_after, h.opens]
  rfl

theorem regions_closing (h : Arguments depth opening inside closing) :
    closing.after.regions = closing.before.regions.tail := by
  rw [closing.regions_after, h.closes]
  rfl

theorem depth_opening (h : Arguments depth opening inside closing) :
    opening.after.depth = depth + 1 := by
  rw [Context.depth, h.regions_opening, List.length_cons]
  exact congrArg (· + 1) h.outside

theorem depth_closing (h : Arguments depth opening inside closing) :
    closing.after.depth = depth := by
  rw [Step.depth_after_of_closes (.inr h.closes), h.innermost, Nat.add_sub_cancel]

end Arguments

end JavaHighlight
