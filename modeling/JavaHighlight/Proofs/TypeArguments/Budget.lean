import JavaHighlight.Proofs.Steps
import JavaHighlight.Proofs.TypeArguments.Promise

/-!
# Type arguments within the budget

The lexeme that closes type arguments was found within the budget of the `<` that opened them,
and each lexeme in between takes one off what is left to read
(`Context.keptByReading_promisedWithinBudget`). So a `<` in between never lacks lexemes: by
itself it would be found to open type arguments or to be a comparison
(`Context.PromisedWithinBudget.angle_ne_undecided`).
-/

namespace JavaHighlight

theorem Closes.count_eq {depth : Nat} {kinds : List TokenKind} (h : Closes depth kinds) :
    depth + kinds.count .genericOpen = kinds.count .genericClose := by
  induction h with
  | nil => rfl
  | @other depth kind kinds hangle _ _ ih =>
    have hopen : kind ≠ .genericOpen := by
      rintro rfl
      cases hangle
    have hclose : kind ≠ .genericClose := by
      rintro rfl
      cases hangle
    rw [List.count_cons_of_ne hopen, List.count_cons_of_ne hclose, ih]
  | @opening depth kinds _ ih =>
    rw [List.count_cons_self, List.count_cons_of_ne (by decide), ← ih]
    omega
  | @closing depth kinds _ ih =>
    rw [List.count_cons_self, List.count_cons_of_ne (by decide), ← ih]
    omega

/-- From a place further inside, with more to read, the end of type arguments that was found is
not missed. -/
theorem Lookahead.resolveAngle_ne_undecided {fuel fuel' depth depth' : Nat} {ls : List Lexeme}
    (h : resolveAngle fuel depth ls = .opensTypeArgs) (hfuel : fuel ≤ fuel')
    (hdepth : depth' ≤ depth) : resolveAngle fuel' depth' ls ≠ .undecided := by
  induction fuel generalizing fuel' depth depth' ls with
  | zero => cases h
  | succ fuel ih =>
    obtain ⟨extra, rfl⟩ := Nat.exists_eq_add_of_le hfuel
    have hle : fuel ≤ fuel + extra := Nat.le_add_right fuel extra
    cases ls with
    | nil => cases h
    | cons l ls =>
      rw [Nat.add_right_comm]
      unfold resolveAngle at h ⊢
      dsimp only at h ⊢
      split_ifs at h with hless hzero hstand hlt heq
      · rw [if_pos hless]
        exact ih h hle (Nat.succ_le_succ hdepth)
      · rw [if_neg hless, if_pos hzero, if_pos hstand]
        exact ih h hle hdepth
      · rw [if_neg hless, if_neg hzero]
        split_ifs
        · exact ih h hle (Nat.sub_le_sub_right hdepth _)
        · simp
        · simp
      · rw [if_neg hless, if_neg hzero, if_neg (by omega)]
        split_ifs <;> simp

namespace Context

/-- Lists of type arguments that are open are closed by the lexemes ahead, and the budget of a
question about brackets is enough to find that out. -/
structure PromisedWithinBudget (ctx : Context) (ahead : List Lexeme) : Prop where
  promised : ∃ depth, ctx.Promised depth ahead
  found : ctx.openAngles = 0 ∨ ∃ fuel ≤ Lookahead.budget,
    Lookahead.resolveAngle fuel ctx.openAngles ahead = .opensTypeArgs

variable {mode : Mode} {ctx : Context} {l : Lexeme} {ahead : List Lexeme}

theorem promisedWithinBudget_initial (ahead : List Lexeme) :
    initial.PromisedWithinBudget ahead :=
  ⟨⟨0, promised_initial ahead⟩, .inl rfl⟩

/-- The kinds of the pieces of a lexeme. -/
def pieceKinds (mode : Mode) (ctx : Context) (l : Lexeme) (ahead : List Lexeme) :
    List TokenKind :=
  (Reading.ofLexeme mode ctx l ahead).pieces.map Piece.kind

theorem openAngles_read
    (h : ∃ depth, ctx.Promised depth (if l.isTrivia then ahead else l :: ahead)) (mode : Mode) :
    (∃ depth, (ctx.read mode l ahead).Promised depth ahead) ∧
      ctx.openAngles + (pieceKinds mode ctx l ahead).count .genericOpen =
        (pieceKinds mode ctx l ahead).count .genericClose +
          (ctx.read mode l ahead).openAngles := by
  obtain ⟨depth, h⟩ := h
  obtain ⟨depth', h', hcloses⟩ := h.keeps mode
  have hend : Closes depth' (List.replicate depth' .genericClose) := by
    have hreplicate := Closes.nil.replicate_closing depth'
    rwa [Nat.zero_add, List.append_nil] at hreplicate
  have hcount := (hcloses _ hend).count_eq
  rw [List.count_append, List.count_append, List.count_replicate_self,
    List.count_replicate, if_neg (by decide), Nat.add_zero] at hcount
  rw [h.openAngles_eq, h'.openAngles_eq]
  exact ⟨⟨depth', h'⟩, hcount⟩

/-- Outside of type arguments only a `<` whose end is found within the budget opens some. -/
theorem PromisedWithinBudget.found_outside (h : ctx.PromisedWithinBudget (l :: ahead))
    (hzero : ctx.openAngles = 0)
    (hcount : (pieceKinds mode ctx l ahead).count .genericOpen =
      (pieceKinds mode ctx l ahead).count .genericClose + (ctx.read mode l ahead).openAngles) :
    (ctx.read mode l ahead).openAngles = 0 ∨ ∃ fuel ≤ Lookahead.budget,
      Lookahead.resolveAngle fuel (ctx.read mode l ahead).openAngles ahead =
        .opensTypeArgs := by
  obtain ⟨depth, hpromised⟩ := h.promised
  rw [hpromised.openAngles_eq] at hzero
  have htop : ctx.top ≠ some .typeArgs := fun htop => hpromised.top_eq_iff.mp htop hzero
  by_cases hopen : TokenKind.genericOpen ∈ pieceKinds mode ctx l ahead
  case neg =>
    rw [List.count_eq_zero.mpr hopen] at hcount
    exact .inl (by omega)
  case pos =>
    obtain ⟨piece, hpiece, hkind⟩ := List.mem_map.mp hopen
    have hless := Shape.eq_less_of_genericOpen (hkind ▸ Reading.kind_mem_kinds hpiece)
    rw [Reading.ofLexeme_of_less hless] at hpiece
    have hangle := Reading.angle_of_genericOpen htop hpiece hkind
    obtain ⟨kind, -, flags, opensLambda, hpieces⟩ := Reading.isOnePiece_ofLexeme
      (by rw [hless]; rfl) (by rw [hless]; simp) mode ctx ahead
    rw [pieceKinds, hpieces, List.map_singleton, List.mem_singleton] at hopen
    rw [pieceKinds, hpieces, List.map_singleton, ← hopen] at hcount
    have hone : (ctx.read mode l ahead).openAngles = 1 := by
      rw [List.count_singleton_self, List.count_singleton, if_neg (by decide)] at hcount
      omega
    exact .inr ⟨Lookahead.budget, Nat.le_refl _, hone ▸ hangle⟩

/-- Inside of type arguments each lexeme takes one off what is left to read. -/
theorem PromisedWithinBudget.found_inside (h : ctx.PromisedWithinBudget (l :: ahead))
    (hzero : ctx.openAngles ≠ 0)
    (hcount : ctx.openAngles + (pieceKinds mode ctx l ahead).count .genericOpen =
      (pieceKinds mode ctx l ahead).count .genericClose + (ctx.read mode l ahead).openAngles) :
    (ctx.read mode l ahead).openAngles = 0 ∨ ∃ fuel ≤ Lookahead.budget,
      Lookahead.resolveAngle fuel (ctx.read mode l ahead).openAngles ahead =
        .opensTypeArgs := by
  obtain ⟨depth, hpromised⟩ := h.promised
  obtain ⟨fuel, hfuel, hfound⟩ := h.found.resolve_left hzero
  rw [hpromised.openAngles_eq] at hzero hfound hcount
  cases fuel with
  | zero => cases hfound
  | succ fuel =>
  have hle : fuel ≤ Lookahead.budget := Nat.le_of_succ_le hfuel
  have hclosing : l.shape.closingAngles ≠ 0 → l.shape.closingAngles ≤ depth →
      (ctx.read mode l ahead).openAngles = depth - l.shape.closingAngles := by
    intro hangles hdepth
    have hkinds : pieceKinds mode ctx l ahead =
        List.replicate l.shape.closingAngles .genericClose := by
      rw [pieceKinds, Reading.ofLexeme_of_closingAngles hangles,
        ofClosingAngles_of_inside hpromised hangles hdepth, List.map_replicate]
      rfl
    rw [hkinds, List.count_replicate_self, List.count_replicate, if_neg (by decide)] at hcount
    omega
  rcases Lookahead.resolveAngle_succ_cons hfound with
    ⟨hless, hfound⟩ | ⟨hangles, hstand, hfound⟩ | ⟨hangles, hlt, hfound⟩ | ⟨hangles, heq⟩
  · have hkinds : pieceKinds mode ctx l ahead = [.genericOpen] := by
      rw [pieceKinds, Reading.ofLexeme_of_less (of_decide_eq_true hless), Reading.ofLess,
        if_pos (hpromised.top_eq_iff.mpr hzero)]
      rfl
    rw [hkinds, List.count_singleton_self, List.count_singleton, if_neg (by decide),
      Nat.zero_add] at hcount
    exact .inr ⟨fuel, hle, hcount ▸ hfound⟩
  · have hneutral : ∀ kind : TokenKind, kind.isAngle = true →
        (pieceKinds mode ctx l ahead).count kind = 0 := by
      intro kind hkind
      refine List.count_eq_zero.mpr fun hmem => ?_
      obtain ⟨piece, hpiece, rfl⟩ := List.mem_map.mp hmem
      rw [(Reading.breaksTypeArgs_of_mayStand hstand hpiece).2] at hkind
      cases hkind
    rw [hneutral _ rfl, hneutral _ rfl, Nat.add_zero, Nat.zero_add] at hcount
    exact .inr ⟨fuel, hle, hcount ▸ hfound⟩
  · exact .inr ⟨fuel, hle, (hclosing hangles (Nat.le_of_lt hlt)) ▸ hfound⟩
  · left
    rw [hclosing hangles (Nat.le_of_eq heq)]
    omega

/-- **The budget is never short** while type arguments are open. -/
theorem keptByReading_promisedWithinBudget (mode : Mode) :
    KeptByReading mode PromisedWithinBudget := by
  intro ctx l ahead h
  obtain ⟨hpromised, hcount⟩ := openAngles_read h.promised mode
  refine ⟨hpromised, ?_⟩
  cases hl : l.isTrivia with
  | true =>
    rw [hl, if_pos rfl] at h
    rw [(lexemeSteps_of_isTrivia hl mode ctx ahead).2]
    exact h.found
  | false =>
    rw [hl, if_neg Bool.false_ne_true] at h
    by_cases hzero : ctx.openAngles = 0
    · rw [hzero, Nat.zero_add] at hcount
      exact h.found_outside hzero hcount
    · exact h.found_inside hzero hcount

theorem PromisedWithinBudget.angle_ne_undecided (h : ctx.PromisedWithinBudget (l :: ahead))
    (hless : l.shape = .symbol .less) (htop : ctx.top = some .typeArgs) :
    Lookahead.angle ahead ≠ .undecided := by
  obtain ⟨depth, hpromised⟩ := h.promised
  have hzero : ctx.openAngles ≠ 0 := by
    rw [hpromised.openAngles_eq]
    exact hpromised.top_eq_iff.mp htop
  obtain ⟨fuel, hfuel, hfound⟩ := h.found.resolve_left hzero
  cases fuel with
  | zero => cases hfound
  | succ fuel =>
    have hbehind : Lookahead.resolveAngle fuel (ctx.openAngles + 1) ahead = .opensTypeArgs := by
      have hsymbol : l.isSymbol .less = true := decide_eq_true hless
      rwa [Lookahead.resolveAngle, if_pos hsymbol] at hfound
    exact Lookahead.resolveAngle_ne_undecided hbehind (Nat.le_of_succ_le hfuel)
      (Nat.le_add_left 1 _)

end Context

end JavaHighlight
