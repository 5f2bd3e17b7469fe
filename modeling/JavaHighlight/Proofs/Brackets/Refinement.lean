import JavaHighlight.Proofs.Brackets.Simulation
import Mathlib.Data.List.Induction
import Mathlib.Order.Bounds.Basic

/-!
# The context is a stack of brackets

Of all that a context remembers, only the open regions tell how brackets are paired, and of these
only the brackets around them: token by token they are the stack of a machine that knows of
braces, parentheses and angle brackets only (`Context.brackets_observe`,
`Context.issue?_eq_step`). So any run of tokens, whether they come from a source or not, records
the issues of that machine and leaves its stack (`observePieces_refines`). Along the run the
depth of the machine is never more than what the context remembers as the deepest one
(`Context.isGreatest_deepest`).
-/

namespace JavaHighlight

namespace BracketStack

/-- What a token does to the stack, and how it fails to close what is on top. A closing brace or
parenthesis closes whatever that is, an angle bracket only another one. -/
def step (stack : List Bracket) : TokenKind → Option BracketIssue × List Bracket
  | .leftBrace => (none, .brace :: stack)
  | .leftParen => (none, .paren :: stack)
  | .genericOpen => (none, .angle :: stack)
  | .rightBrace => PlainStack.close .brace stack
  | .rightParen => PlainStack.close .paren stack
  | .genericClose => (none, if stack.head? = some .angle then stack.tail else stack)
  | _ => (none, stack)

def after (stack : List Bracket) (kinds : List TokenKind) : List Bracket :=
  kinds.foldl (fun stack kind => (step stack kind).2) stack

def issues : List Bracket → List TokenKind → List (Option BracketIssue)
  | _, [] => []
  | stack, kind :: kinds => (step stack kind).1 :: issues (step stack kind).2 kinds

def unclosed? (stack : List Bracket) : Option BracketIssue :=
  stack.head?.map fun top => .unclosed stack.length top.closer

end BracketStack

namespace Context

variable {ctx : Context}

theorem length_brackets (ctx : Context) : ctx.brackets.length = ctx.depth :=
  List.length_map _

theorem head?_brackets (ctx : Context) : ctx.brackets.head? = ctx.top.map Region.bracket :=
  List.head?_map

/-! ## One token -/

theorem issue?_eq_step (ctx : Context) (kind : TokenKind) :
    ctx.issue? kind = (BracketStack.step ctx.brackets kind).1 := by
  cases kind with
  | rightBrace => exact issue?_of_closes? rfl ctx
  | rightParen => exact issue?_of_closes? rfl ctx
  | _ => rfl

theorem snd_close (bracket : Bracket) (stack : List Bracket) :
    (PlainStack.close bracket stack).2 = stack.tail := by
  cases stack <;> rfl

theorem head?_brackets_eq_angle_iff (ctx : Context) :
    ctx.brackets.head? = some .angle ↔ ctx.top = some .typeArgs := by
  rw [head?_brackets, Option.map_eq_some_iff]
  constructor
  · rintro ⟨region, htop, hregion⟩
    rw [htop, (bracket_eq_angle_iff region).mp hregion]
  · exact fun htop => ⟨_, htop, rfl⟩

/-- A token does to the brackets of a context what it does to a stack of brackets. -/
theorem brackets_observe (h : ctx.HeaderWaitsForBody) (kind : TokenKind) (text : String)
    (opensLambda : Bool) :
    (ctx.observe kind text opensLambda).brackets = (BracketStack.step ctx.brackets kind).2 := by
  have htail : (ctx.regions.tail).map Region.bracket = ctx.brackets.tail := List.map_tail
  unfold brackets at htail ⊢
  rw [regions_observe]
  cases kind with
  | leftBrace =>
    show (ctx.braceRegion :: ctx.regions).map Region.bracket = _
    rw [List.map_cons, bracket_braceRegion h]
    rfl
  | leftParen =>
    show (ctx.parenRegion opensLambda :: ctx.regions).map Region.bracket = _
    rw [List.map_cons, bracket_parenRegion]
    rfl
  | rightBrace | rightParen => exact htail.trans (snd_close _ _).symm
  | genericClose =>
    show (if ctx.top = some .typeArgs then ctx.regions.tail else ctx.regions).map _ =
      if ctx.brackets.head? = some .angle then ctx.brackets.tail else ctx.brackets
    simp only [head?_brackets_eq_angle_iff]
    split
    · exact htail
    · rfl
  | semicolon => exact bracket_endConstants ctx.regions
  | _ => rfl

theorem deepest_observe (h : ctx.depth ≤ ctx.deepest) (kind : TokenKind) (text : String)
    (opensLambda : Bool) :
    (ctx.observe kind text opensLambda).deepest =
      max ctx.deepest (ctx.observe kind text opensLambda).depth := by
  unfold observe
  split
  · exact (Nat.max_eq_left h).symm
  · rfl

theorem unclosed?_eq (ctx : Context) : ctx.unclosed? = BracketStack.unclosed? ctx.brackets := by
  unfold unclosed? BracketStack.unclosed?
  rw [head?_brackets, length_brackets, Option.map_map]
  rfl

/-! ## Runs -/

theorem brackets_observePiece (h : ctx.HeaderWaitsForBody) (piece : Piece) :
    (ctx.observePiece piece).brackets = (BracketStack.step ctx.brackets piece.kind).2 ∧
      (ctx.observePiece piece).HeaderWaitsForBody :=
  ⟨brackets_observe h _ _ _, h.observe _ _ _⟩

theorem brackets_observePieces (h : ctx.HeaderWaitsForBody) (pieces : List Piece) :
    (ctx.observePieces pieces).brackets =
      BracketStack.after ctx.brackets (pieces.map Piece.kind) := by
  induction pieces generalizing ctx with
  | nil => rfl
  | cons piece pieces ih =>
    obtain ⟨hbrackets, hheader⟩ := brackets_observePiece h piece
    rw [observePieces_cons, ih hheader, hbrackets]
    rfl

theorem map_issue?_observations (h : ctx.HeaderWaitsForBody) (pieces : List Piece) :
    (ctx.observations pieces).map (fun x => x.1.issue? x.2.kind) =
      BracketStack.issues ctx.brackets (pieces.map Piece.kind) := by
  induction pieces generalizing ctx with
  | nil => rfl
  | cons piece pieces ih =>
    obtain ⟨hbrackets, hheader⟩ := brackets_observePiece h piece
    rw [observations, List.map_cons, List.map_cons, BracketStack.issues, ih hheader, hbrackets,
      issue?_eq_step]

/-- The depths behind the first pieces of a run. -/
def depthsAlong (ctx : Context) (pieces : List Piece) : Set Nat :=
  {depth | ∃ front, front <+: pieces ∧ (ctx.observePieces front).depth = depth}

theorem isGreatest_deepest (pieces : List Piece) :
    IsGreatest (initial.depthsAlong pieces) (initial.observePieces pieces).deepest := by
  induction pieces using List.reverseRecOn with
  | nil =>
    refine ⟨⟨[], List.prefix_rfl, rfl⟩, ?_⟩
    rintro _ ⟨front, hfront, rfl⟩
    rw [List.prefix_nil.mp hfront]
    exact Nat.le_refl 0
  | append_singleton pieces piece ih =>
    have hafter : ∀ front, initial.observePieces (front ++ [piece]) =
        (initial.observePieces front).observePiece piece := by
      intro front
      exact List.foldl_append
    have hdeepest : (initial.observePieces (pieces ++ [piece])).deepest =
        max (initial.observePieces pieces).deepest
          (initial.observePieces (pieces ++ [piece])).depth := by
      rw [hafter]
      exact deepest_observe (ih.2 ⟨pieces, List.prefix_rfl, rfl⟩) _ _ _
    rw [hdeepest]
    constructor
    · rcases Nat.le_total (initial.observePieces pieces).deepest
        (initial.observePieces (pieces ++ [piece])).depth with hle | hle
      · rw [Nat.max_eq_right hle]
        exact ⟨_, List.prefix_rfl, rfl⟩
      · rw [Nat.max_eq_left hle]
        obtain ⟨front, hfront, hdepth⟩ := ih.1
        exact ⟨front, hfront.trans (List.prefix_append _ _), hdepth⟩
    · rintro _ ⟨front, hfront, rfl⟩
      rcases List.prefix_concat_iff.mp hfront with rfl | hfront
      · exact Nat.le_max_right _ _
      · exact (ih.2 ⟨front, hfront, rfl⟩).trans (Nat.le_max_left _ _)

end Context

/-- **The context is a stack of brackets.** Whatever tokens are taken in from the start on, the
brackets around the open regions are the stack of the machine, the issues are those that the
machine finds, token by token, the deepest depth is the greatest one of the machine along the
run, and what is left open at the end is what is left on its stack. -/
theorem observePieces_refines (pieces : List Piece) :
    let ctx := Context.initial.observePieces pieces
    let stackBehind := fun front : List Piece => BracketStack.after [] (front.map Piece.kind)
    ctx.regions.map Region.bracket = stackBehind pieces ∧
      (Context.initial.observations pieces).map (fun x => x.1.issue? x.2.kind) =
        BracketStack.issues [] (pieces.map Piece.kind) ∧
      IsGreatest {depth | ∃ front, front <+: pieces ∧ (stackBehind front).length = depth}
        ctx.deepest ∧
      ctx.unclosed? = BracketStack.unclosed? (stackBehind pieces) := by
  intro ctx stackBehind
  have hbrackets : ∀ front, (Context.initial.observePieces front).brackets = stackBehind front :=
    Context.brackets_observePieces Context.headerWaitsForBody_initial
  have hdepths : {depth | ∃ front, front <+: pieces ∧ (stackBehind front).length = depth} =
      Context.initial.depthsAlong pieces := by
    simp only [Context.depthsAlong, ← hbrackets, Context.length_brackets]
  refine ⟨hbrackets pieces, ?_, ?_, ?_⟩
  · exact Context.map_issue?_observations Context.headerWaitsForBody_initial pieces
  · rw [hdepths]
    exact Context.isGreatest_deepest pieces
  · rw [Context.unclosed?_eq, hbrackets]

end JavaHighlight
