import JavaHighlight.Lookahead
import JavaHighlight.Proofs.Tiling.Scan

/-!
# Angle brackets in balance

What a `<` opens is decided by a balance: one bracket is open, each further `<` opens one more, and
each closing bracket takes one off. Type arguments end where the balance first comes to zero; a
lexeme that may not stand in them, or that closes more than is open, comes first otherwise
(`Reader.angle_decides_balance`).

Whatever is open at the start, one lexeme changes the balance and leaves the same question about
the others (`closesAt_cons_iff`, `breaksAt_cons_iff`). The induction is on how many lexemes may
still be read.
-/

namespace JavaHighlight

namespace Lookahead

/-! ## The balance -/

/-- The symbols that may stand in type arguments, brackets included. -/
def allowedSymbols : List Symbol := [
  .comma, .dot, .question, .ampersand, .leftBracket, .rightBracket, .atSign,
  .less, .greater, .shiftRight, .unsignedShiftRight]

/-- What may stand in type arguments: some symbols, names, and the names of primitive types, and the
two reserved words in front of the bounds of a wildcard. -/
def Allowed (l : Lexeme) : Prop :=
  (∃ s ∈ allowedSymbols, l.shape = .symbol s) ∨
    l.shape = .word ∧ (Keyword.isReserved l.word = false ∨ l.word = "extends" ∨ l.word = "super" ∨
      l.word ∈ Keyword.primitiveTypes)

def totalClosing (ls : List Lexeme) : Nat :=
  ls.foldr (fun l n => l.shape.closingAngles + n) 0

/-- How many brackets are open behind some lexemes if `opened` are in front of them. Negative if
more are closed than were open. -/
def balance (opened : Int) (ls : List Lexeme) : Int :=
  opened + ls.countP (·.isSymbol .less) - totalClosing ls

/-- The first `k` lexemes may all stand in type arguments, and brackets are open in front of each
of them. -/
structure StaysOpen (opened : Int) (ls : List Lexeme) (k : Nat) : Prop where
  length_le : k ≤ ls.length
  allowed : ∀ l ∈ ls.take k, Allowed l
  pos : ∀ j < k, 0 < balance opened (ls.take j)

/-- The last of the first `k` lexemes closes the last bracket that is open. -/
structure ClosesAt (opened : Int) (ls : List Lexeme) (k : Nat) : Prop extends
    StaysOpen opened ls k where
  closed : balance opened (ls.take k) = 0

/-- Brackets are open behind the first `k` lexemes, and there is one more that may not stand in
type arguments or closes more than is open. -/
structure BreaksAt (opened : Int) (ls : List Lexeme) (k : Nat) : Prop extends
    StaysOpen opened ls k where
  open_behind : 0 < balance opened (ls.take k)
  broken : ∃ l, ls[k]? = some l ∧ (¬Allowed l ∨ balance opened (ls.take (k + 1)) < 0)

/-- How a lexeme changes the balance. -/
def change (l : Lexeme) : Int :=
  (if l.isSymbol .less then 1 else 0) - l.shape.closingAngles

variable {opened : Int} {fuel depth k : Nat} {l : Lexeme} {ls : List Lexeme}

theorem balance_nil (opened : Int) : balance opened [] = opened := by
  simp [balance, totalClosing]

theorem balance_cons (opened : Int) (l : Lexeme) (ls : List Lexeme) :
    balance opened (l :: ls) = balance (opened + change l) ls := by
  have htotal : totalClosing (l :: ls) = l.shape.closingAngles + totalClosing ls := rfl
  unfold balance change
  rw [List.countP_cons, htotal]
  split_ifs <;> omega

theorem staysOpen_zero : StaysOpen opened ls 0 :=
  ⟨Nat.zero_le _, fun _ h => absurd h List.not_mem_nil, fun _ h => absurd h (Nat.not_lt_zero _)⟩

theorem staysOpen_cons_iff :
    StaysOpen opened (l :: ls) (k + 1) ↔
      0 < opened ∧ Allowed l ∧ StaysOpen (opened + change l) ls k := by
  constructor
  · intro h
    have hallowed := h.allowed
    rw [List.take_succ_cons, List.forall_mem_cons] at hallowed
    refine ⟨?_, hallowed.1, Nat.le_of_succ_le_succ h.length_le, hallowed.2, fun j hj => ?_⟩
    · have hpos := h.pos 0 k.succ_pos
      rwa [List.take_zero, balance_nil] at hpos
    · have hpos := h.pos (j + 1) (Nat.succ_lt_succ hj)
      rwa [List.take_succ_cons, balance_cons] at hpos
  · rintro ⟨hopened, hl, h⟩
    refine ⟨Nat.succ_le_succ h.length_le, ?_, fun j hj => ?_⟩
    · rw [List.take_succ_cons, List.forall_mem_cons]
      exact ⟨hl, h.allowed⟩
    · cases j with
      | zero => rwa [List.take_zero, balance_nil]
      | succ j =>
        rw [List.take_succ_cons, balance_cons]
        exact h.pos j (Nat.lt_of_succ_lt_succ hj)

theorem closesAt_zero_iff : ClosesAt opened ls 0 ↔ opened = 0 := by
  refine ⟨fun h => ?_, fun h => ⟨staysOpen_zero, ?_⟩⟩
  · have hclosed := h.closed
    rwa [List.take_zero, balance_nil] at hclosed
  · rwa [List.take_zero, balance_nil]

theorem closesAt_cons_iff :
    ClosesAt opened (l :: ls) (k + 1) ↔
      0 < opened ∧ Allowed l ∧ ClosesAt (opened + change l) ls k := by
  have hbalance : balance opened ((l :: ls).take (k + 1)) =
      balance (opened + change l) (ls.take k) := by
    rw [List.take_succ_cons, balance_cons]
  constructor
  · intro h
    obtain ⟨hopened, hl, hrest⟩ := staysOpen_cons_iff.mp h.toStaysOpen
    exact ⟨hopened, hl, hrest, hbalance ▸ h.closed⟩
  · rintro ⟨hopened, hl, h⟩
    exact ⟨staysOpen_cons_iff.mpr ⟨hopened, hl, h.toStaysOpen⟩, hbalance ▸ h.closed⟩

theorem breaksAt_zero_iff :
    BreaksAt opened (l :: ls) 0 ↔ 0 < opened ∧ (¬Allowed l ∨ opened + change l < 0) := by
  have hbalance : balance opened ((l :: ls).take (0 + 1)) = opened + change l := by
    rw [List.take_succ_cons, List.take_zero, balance_cons, balance_nil]
  have hfront : balance opened ((l :: ls).take 0) = opened := balance_nil opened
  constructor
  · intro h
    obtain ⟨l', hl', hbroken⟩ := h.broken
    obtain rfl : l = l' := Option.some.inj hl'
    exact ⟨hfront ▸ h.open_behind, hbalance ▸ hbroken⟩
  · rintro ⟨hopened, hbroken⟩
    exact ⟨staysOpen_zero, hfront.symm ▸ hopened, l, rfl, hbalance.symm ▸ hbroken⟩

theorem breaksAt_cons_iff :
    BreaksAt opened (l :: ls) (k + 1) ↔
      0 < opened ∧ Allowed l ∧ BreaksAt (opened + change l) ls k := by
  have hbalance : ∀ n, balance opened ((l :: ls).take (n + 1)) =
      balance (opened + change l) (ls.take n) := fun n => by
    rw [List.take_succ_cons, balance_cons]
  constructor
  · intro h
    obtain ⟨hopened, hl, hrest⟩ := staysOpen_cons_iff.mp h.toStaysOpen
    refine ⟨hopened, hl, hrest, hbalance k ▸ h.open_behind, ?_⟩
    rw [← hbalance]
    exact h.broken
  · rintro ⟨hopened, hl, h⟩
    refine ⟨staysOpen_cons_iff.mpr ⟨hopened, hl, h.toStaysOpen⟩, hbalance k ▸ h.open_behind, ?_⟩
    rw [hbalance]
    exact h.broken

/-- Where more is closed than was open, nothing is closed later. -/
theorem ClosesAt.nonneg (h : ClosesAt opened ls k) : 0 ≤ opened := by
  cases k with
  | zero => exact Int.le_of_eq (closesAt_zero_iff.mp h).symm
  | succ k =>
    have hpos := h.pos 0 k.succ_pos
    rw [List.take_zero, balance_nil] at hpos
    exact Int.le_of_lt hpos

theorem BreaksAt.pos_opened (h : BreaksAt opened ls k) : 0 < opened := by
  cases k with
  | zero => exact balance_nil opened ▸ h.open_behind
  | succ k => exact balance_nil opened ▸ h.pos 0 k.succ_pos

/-! ## Deciding by the balance -/

theorem allowed_iff :
    Allowed l ↔ l.isSymbol .less = true ∨ l.shape.closingAngles ≠ 0 ∨
      mayStandInTypeArgs l = true := by
  obtain ⟨shape, text⟩ := l
  cases shape with
  | symbol s =>
    have key : ∀ s ∈ Symbol.all, s ∈ allowedSymbols ↔
        s = .less ∨ s.closingAngles ≠ 0 ∨ s ∈ typeArgSymbols := by decide
    simpa [Allowed, Lexeme.isSymbol, Shape.closingAngles, mayStandInTypeArgs] using key s s.mem_all
  | word =>
    simp [Allowed, Lexeme.isSymbol, Shape.closingAngles, mayStandInTypeArgs,
      Keyword.isTypeArgumentWord, or_assoc]
  | _ => simp [Allowed, Lexeme.isSymbol, Shape.closingAngles, mayStandInTypeArgs]

/-- What the search does with a lexeme while brackets are open. -/
theorem resolveAngle_step (hdepth : 0 < depth) (fuel : Nat) (l : Lexeme) (ls : List Lexeme) :
    (¬Allowed l ∨ depth + change l < 0) ∧ resolveAngle (fuel + 1) depth (l :: ls) = .comparison ∨
    Allowed l ∧ depth + change l = 0 ∧
      resolveAngle (fuel + 1) depth (l :: ls) = .opensTypeArgs ∨
    Allowed l ∧ ∃ depth' : Nat, 0 < depth' ∧ depth + change l = depth' ∧
      resolveAngle (fuel + 1) depth (l :: ls) = resolveAngle fuel depth' ls := by
  have hless : l.isSymbol .less = true → l.shape.closingAngles = 0 := by
    intro h
    rw [of_decide_eq_true h]
    rfl
  rw [allowed_iff, resolveAngle]
  unfold change
  split_ifs with hsymbol hzero hstand hlt heq
  · have hone : (depth : Int) + (1 - l.shape.closingAngles) = (depth + 1 : Nat) := by
      rw [hless hsymbol]
      omega
    exact .inr (.inr ⟨.inl hsymbol, depth + 1, depth.succ_pos, hone, rfl⟩)
  · exact .inr (.inr ⟨.inr (.inr hstand), depth, hdepth, by rw [hzero]; omega, rfl⟩)
  · exact .inl ⟨.inl (by simp [hsymbol, hzero, hstand]), rfl⟩
  · exact .inr (.inr ⟨.inr (.inl hzero), depth - l.shape.closingAngles, by omega, by omega, rfl⟩)
  · exact .inr (.inl ⟨.inr (.inl hzero), by omega, rfl⟩)
  · exact .inl ⟨.inr (by omega), rfl⟩

theorem not_closesAt_zero (hdepth : 0 < depth) : ¬ClosesAt depth ls 0 := by
  rw [closesAt_zero_iff]
  omega

/-- Type arguments are found just if the balance comes to zero in time. -/
theorem resolveAngle_eq_opensTypeArgs_iff (hdepth : 0 < depth) :
    resolveAngle fuel depth ls = .opensTypeArgs ↔ ∃ k ≤ fuel, ClosesAt depth ls k := by
  induction fuel generalizing depth ls with
  | zero =>
    refine iff_of_false (by simp [resolveAngle]) ?_
    rintro ⟨k, hk, h⟩
    exact not_closesAt_zero hdepth (Nat.le_zero.mp hk ▸ h)
  | succ fuel ih =>
    cases ls with
    | nil =>
      refine iff_of_false (by simp [resolveAngle]) ?_
      rintro ⟨k, -, h⟩
      exact not_closesAt_zero hdepth (Nat.le_zero.mp h.length_le ▸ h)
    | cons l ls =>
      -- Which lexeme closes the last bracket is told by the lexemes behind the first.
      have hcons : (∃ k ≤ fuel + 1, ClosesAt depth (l :: ls) k) ↔
          Allowed l ∧ ∃ k ≤ fuel, ClosesAt (depth + change l) ls k := by
        constructor
        · rintro ⟨k, hk, h⟩
          cases k with
          | zero => exact absurd h (not_closesAt_zero hdepth)
          | succ k =>
            obtain ⟨-, hl, hrest⟩ := closesAt_cons_iff.mp h
            exact ⟨hl, k, Nat.le_of_succ_le_succ hk, hrest⟩
        · rintro ⟨hl, k, hk, h⟩
          exact ⟨k + 1, Nat.succ_le_succ hk, closesAt_cons_iff.mpr ⟨by omega, hl, h⟩⟩
      rw [hcons]
      rcases resolveAngle_step hdepth fuel l ls with
        ⟨hbroken, heq⟩ | ⟨hl, hclosed, heq⟩ | ⟨hl, depth', hdepth', hchange, heq⟩
      · rw [heq]
        refine iff_of_false (by simp) ?_
        rintro ⟨hl, k, -, h⟩
        exact absurd h.nonneg (Int.not_le.mpr (hbroken.resolve_left (not_not_intro hl)))
      · rw [heq, hclosed]
        exact iff_of_true rfl ⟨hl, 0, Nat.zero_le fuel, closesAt_zero_iff.mpr rfl⟩
      · rw [heq, hchange, ih hdepth', and_iff_right hl]

/-- A comparison is found just if something breaks the type arguments in time. -/
theorem resolveAngle_eq_comparison_iff (hdepth : 0 < depth) :
    resolveAngle fuel depth ls = .comparison ↔ ∃ k < fuel, BreaksAt depth ls k := by
  induction fuel generalizing depth ls with
  | zero =>
    refine iff_of_false (by simp [resolveAngle]) ?_
    rintro ⟨k, hk, -⟩
    exact absurd hk (Nat.not_lt_zero k)
  | succ fuel ih =>
    cases ls with
    | nil =>
      refine iff_of_false (by simp [resolveAngle]) ?_
      rintro ⟨k, -, h⟩
      obtain ⟨l, hl, -⟩ := h.broken
      cases hl
    | cons l ls =>
      -- The first lexeme breaks the type arguments, or one behind it.
      have hcons : (∃ k < fuel + 1, BreaksAt depth (l :: ls) k) ↔
          (¬Allowed l ∨ depth + change l < 0) ∨
            Allowed l ∧ ∃ k < fuel, BreaksAt (depth + change l) ls k := by
        constructor
        · rintro ⟨k, hk, h⟩
          cases k with
          | zero => exact .inl (breaksAt_zero_iff.mp h).2
          | succ k =>
            obtain ⟨-, hl, hrest⟩ := breaksAt_cons_iff.mp h
            exact .inr ⟨hl, k, Nat.lt_of_succ_lt_succ hk, hrest⟩
        · rintro (hbroken | ⟨hl, k, hk, h⟩)
          · exact ⟨0, fuel.succ_pos, breaksAt_zero_iff.mpr ⟨by omega, hbroken⟩⟩
          · exact ⟨k + 1, Nat.succ_lt_succ hk, breaksAt_cons_iff.mpr ⟨by omega, hl, h⟩⟩
      rw [hcons]
      rcases resolveAngle_step hdepth fuel l ls with
        ⟨hbroken, heq⟩ | ⟨hl, hclosed, heq⟩ | ⟨hl, depth', hdepth', hchange, heq⟩
      · exact iff_of_true heq (.inl hbroken)
      · rw [heq, hclosed]
        refine iff_of_false (by simp) ?_
        rintro ((hnot | hneg) | ⟨-, k, -, h⟩)
        · exact hnot hl
        · exact absurd hneg (Int.lt_irrefl 0)
        · exact absurd h.pos_opened (Int.lt_irrefl 0)
      · have hgoes : ¬(¬Allowed l ∨ (depth' : Int) < 0) := by
          rintro (hnot | hneg)
          · exact hnot hl
          · omega
        rw [heq, hchange, ih hdepth', or_iff_right hgoes, and_iff_right hl]

/-- A larger budget changes no answer but that there was none. -/
theorem resolveAngle_of_le {fuel' : Nat} (hdepth : 0 < depth) (hle : fuel ≤ fuel')
    (h : resolveAngle fuel depth ls ≠ .undecided) :
    resolveAngle fuel' depth ls = resolveAngle fuel depth ls := by
  cases hverdict : resolveAngle fuel depth ls with
  | opensTypeArgs =>
    obtain ⟨k, hk, hcloses⟩ := (resolveAngle_eq_opensTypeArgs_iff hdepth).mp hverdict
    exact (resolveAngle_eq_opensTypeArgs_iff hdepth).mpr ⟨k, Nat.le_trans hk hle, hcloses⟩
  | comparison =>
    obtain ⟨k, hk, hbreaks⟩ := (resolveAngle_eq_comparison_iff hdepth).mp hverdict
    exact (resolveAngle_eq_comparison_iff hdepth).mpr ⟨k, Nat.lt_of_lt_of_le hk hle, hbreaks⟩
  | undecided => exact absurd hverdict h

end Lookahead

/-! ## Reading lexeme by lexeme -/

/-- The sum of two words, if it is a word. -/
def addWord? (a b : UInt32) : Option UInt32 :=
  if a.toNat + b.toNat < UInt32.size then some (a + b) else none

/-- The difference of two words, unless it falls below zero. -/
def subWord? (a b : UInt32) : Option UInt32 :=
  if b ≤ a then some (a - b) else none

theorem addWord?_eq_some {a b : UInt32} (h : a.toNat + b.toNat < UInt32.size) :
    ∃ c, addWord? a b = some c ∧ c.toNat = a.toNat + b.toNat :=
  ⟨a + b, if_pos h, by rw [UInt32.toNat_add, Nat.mod_eq_of_lt h]⟩

theorem subWord?_eq_some {a b : UInt32} (h : b.toNat ≤ a.toNat) :
    ∃ c, subWord? a b = some c ∧ c.toNat = a.toNat - b.toNat :=
  ⟨a - b, if_pos (UInt32.le_iff_toNat_le.mpr h),
    UInt32.toNat_sub_of_le _ _ (UInt32.le_iff_toNat_le.mpr h)⟩

namespace Reader

def significant (r : Reader) : List Lexeme :=
  r.lexemes.1.filter Lexeme.isSignificant

theorem lexeme_cases (r : Reader) :
    r.lexeme.shape = .endOfInput ∧ r.lexemes.1 = [] ∨
    r.lexeme.shape ≠ .endOfInput ∧
      r.lexemes.1 = r.lexeme :: (r.advance r.lexeme.length).lexemes.1 ∧
      r.size - (r.offset + r.lexeme.length) < r.size - r.offset := by
  cases hls : Lexeme.ofTextFrom r.offset r.source.toList with
  | nil =>
    left
    unfold lexeme lexemes
    rw [hls]
    exact ⟨rfl, rfl⟩
  | cons l ls =>
    obtain ⟨hl, hpos⟩ := Lexeme.inText_of_mem_ofTextFrom (hls ▸ List.mem_cons_self)
    have hlexeme : r.lexeme = l := by
      unfold lexeme
      rw [hls]
      rfl
    have htotal : Lexeme.totalLength (Lexeme.ofTextFrom r.offset r.source.toList) =
        r.size - r.offset := by
      rw [Lexeme.totalLength_ofTextFrom, Text.byteSize_toList]
      rfl
    rw [hls, Lexeme.totalLength_cons] at htotal
    refine .inr ⟨hlexeme ▸ hl.not_end, ?_, by rw [hlexeme]; omega⟩
    show Lexeme.ofTextFrom r.offset r.source.toList =
      r.lexeme :: Lexeme.ofTextFrom (r.offset + r.lexeme.length) r.source.toList
    rw [hlexeme, Lexeme.ofTextFrom_of_eq_cons hls, hls]

/-- The next lexeme that is significant, and the reader behind it. -/
def nextSignificant (r : Reader) : Lexeme × Reader :=
  if _htrivia : r.lexeme.isTrivia then (r.advance r.lexeme.length).nextSignificant
  else (r.lexeme, r.advance r.lexeme.length)
termination_by r.size - r.offset
decreasing_by
  rcases r.lexeme_cases with ⟨hend, -⟩ | ⟨-, -, hlt⟩
  · rw [Lexeme.isTrivia, hend] at _htrivia
    cases _htrivia
  · exact hlt

theorem nextSignificant_cases (r : Reader) :
    r.significant = [] ∧ r.nextSignificant.1.shape = .endOfInput ∨
    ∃ l next, r.nextSignificant = (l, next) ∧ l.shape ≠ .endOfInput ∧
      r.significant = l :: next.significant := by
  fun_induction nextSignificant r with
  | case1 r htrivia ih =>
    have hsame : r.significant = (r.advance r.lexeme.length).significant := by
      rcases r.lexeme_cases with ⟨hend, -⟩ | ⟨-, hcons, -⟩
      · rw [Lexeme.isTrivia, hend] at htrivia
        cases htrivia
      · have hskip : ¬r.lexeme.isSignificant = true := by
          rw [Lexeme.isSignificant, ← Lexeme.isTrivia, htrivia]
          exact Bool.false_ne_true
        rw [significant, hcons, List.filter_cons_of_neg hskip]
        rfl
    rwa [hsame]
  | case2 r hsolid =>
    have hkeep : r.lexeme.isSignificant = true := by
      rw [Lexeme.isSignificant, ← Lexeme.isTrivia, Bool.eq_false_iff.mpr hsolid]
      rfl
    rcases r.lexeme_cases with ⟨hend, hnil⟩ | ⟨hne, hcons, -⟩
    · exact .inl ⟨by rw [significant, hnil, List.filter_nil], hend⟩
    · refine .inr ⟨_, _, rfl, hne, ?_⟩
      rw [significant, hcons, List.filter_cons_of_pos hkeep]
      rfl

end Reader

namespace Lookahead

variable {l : Lexeme}

/-- What is known behind a symbol, with `depth` brackets open in front of it: the verdict, or how
many brackets are open then. There is no answer if their number leaves the range of words. -/
def symbolStep? (depth : UInt32) (s : Symbol) : Option (Verdict ⊕ UInt32) :=
  if s ∈ typeArgSymbols then some (.inr depth)
  else if s = .less then (addWord? depth 1).map .inr
  else if s.closingAngles = 0 then some (.inl .comparison)
  else if depth < UInt32.ofNat s.closingAngles then some (.inl .comparison)
  else
    (subWord? depth (UInt32.ofNat s.closingAngles)).map fun depth =>
      if depth = 0 then .inl .opensTypeArgs else .inr depth

def angleStep? (depth : UInt32) (l : Lexeme) : Option (Verdict ⊕ UInt32) :=
  match l.shape with
  | .word =>
    if Keyword.isReserved l.word && !Keyword.isTypeArgumentWord l.word then some (.inl .comparison)
    else some (.inr depth)
  | .symbol s => symbolStep? depth s
  | .endOfInput => some (.inl .undecided)
  | _ => some (.inl .comparison)

/-- A step by words does what the search does with the lexeme. -/
inductive StepsAlike (depth : UInt32) (l : Lexeme) : Prop
  /-- The verdict is known. -/
  | decided {verdict : Verdict} (hstep : angleStep? depth l = some (.inl verdict))
      (h : ∀ fuel ls, resolveAngle (fuel + 1) depth.toNat (l :: ls) = verdict)
  /-- The search goes on, with at most one more bracket open. -/
  | goesOn {depth' : UInt32} (hstep : angleStep? depth l = some (.inr depth'))
      (hle : depth'.toNat ≤ depth.toNat + 1)
      (h : ∀ fuel ls,
        resolveAngle (fuel + 1) depth.toNat (l :: ls) = resolveAngle fuel depth'.toNat ls)

theorem resolveAngle_symbol {s : Symbol} (hshape : l.shape = .symbol s) (fuel depth : Nat)
    (ls : List Lexeme) :
    resolveAngle (fuel + 1) depth (l :: ls) =
      if s = .less then resolveAngle fuel (depth + 1) ls
      else if s.closingAngles = 0 then
        if s ∈ typeArgSymbols then resolveAngle fuel depth ls else .comparison
      else if s.closingAngles < depth then resolveAngle fuel (depth - s.closingAngles) ls
      else if s.closingAngles = depth then .opensTypeArgs
      else .comparison := by
  rw [resolveAngle]
  simp [Lexeme.isSymbol, mayStandInTypeArgs, Shape.closingAngles, hshape]

/-- No more brackets are taken off than are open. -/
theorem stepsAlike_closing {depth : UInt32} {s : Symbol} (hshape : l.shape = .symbol s)
    (hclosing : s.closingAngles ≠ 0) : StepsAlike depth l := by
  have key : ∀ s ∈ Symbol.all, s.closingAngles ≠ 0 →
      s.closingAngles ≤ 3 ∧ s ∉ typeArgSymbols ∧ s ≠ .less := by decide
  obtain ⟨hthree, hmember, hless⟩ := key s s.mem_all hclosing
  have hrun : (UInt32.ofNat s.closingAngles).toNat = s.closingAngles :=
    UInt32.toNat_ofNat_of_lt' (Nat.lt_of_le_of_lt hthree (by decide))
  have hlt : depth < UInt32.ofNat s.closingAngles ↔ depth.toNat < s.closingAngles := by
    rw [UInt32.lt_iff_toNat_lt, hrun]
  have hstep : angleStep? depth l = symbolStep? depth s := by
    rw [angleStep?, hshape]
  rw [symbolStep?, if_neg hmember, if_neg hless, if_neg hclosing] at hstep
  by_cases hover : depth.toNat < s.closingAngles
  · refine .decided (hstep.trans (if_pos (hlt.mpr hover))) fun fuel ls => ?_
    rw [resolveAngle_symbol hshape, if_neg hless, if_neg hclosing, if_neg (by omega),
      if_neg (by omega)]
  obtain ⟨depth', hdiff, hdepth'⟩ := subWord?_eq_some
    (a := depth) (b := UInt32.ofNat s.closingAngles) (by omega)
  rw [hrun] at hdepth'
  rw [if_neg (mt hlt.mp hover), hdiff, Option.map_some] at hstep
  have hclosed : depth' = 0 ↔ s.closingAngles = depth.toNat := by
    rw [← UInt32.toNat_inj, hdepth']
    show depth.toNat - s.closingAngles = 0 ↔ _
    omega
  by_cases hlast : s.closingAngles = depth.toNat
  · rw [if_pos (hclosed.mpr hlast)] at hstep
    refine .decided hstep fun fuel ls => ?_
    rw [resolveAngle_symbol hshape, if_neg hless, if_neg hclosing, if_neg (by omega),
      if_pos hlast]
  · rw [if_neg (mt hclosed.mp hlast)] at hstep
    refine .goesOn hstep (by omega) fun fuel ls => ?_
    rw [resolveAngle_symbol hshape, if_neg hless, if_neg hclosing, if_pos (by omega), hdepth']

theorem stepsAlike_symbol {depth : UInt32} (h : depth.toNat + 1 < UInt32.size) {s : Symbol}
    (hshape : l.shape = .symbol s) : StepsAlike depth l := by
  by_cases hclosing : s.closingAngles = 0
  case neg => exact stepsAlike_closing hshape hclosing
  have hstep : angleStep? depth l = symbolStep? depth s := by
    rw [angleStep?, hshape]
  unfold symbolStep? at hstep
  by_cases hmember : s ∈ typeArgSymbols
  · have hless : s ≠ .less := by
      rintro rfl
      exact absurd hmember (by decide)
    refine .goesOn (hstep.trans (if_pos hmember)) (Nat.le_succ _) fun fuel ls => ?_
    rw [resolveAngle_symbol hshape, if_neg hless, if_pos hclosing, if_pos hmember]
  rw [if_neg hmember] at hstep
  by_cases hless : s = .less
  · obtain ⟨depth', hsum, hdepth'⟩ := addWord?_eq_some (b := 1) h
    rw [if_pos hless, hsum] at hstep
    refine .goesOn hstep (Nat.le_of_eq hdepth') fun fuel ls => ?_
    rw [resolveAngle_symbol hshape, if_pos hless, hdepth']
    rfl
  · rw [if_neg hless, if_pos hclosing] at hstep
    refine .decided hstep fun fuel ls => ?_
    rw [resolveAngle_symbol hshape, if_neg hless, if_pos hclosing, if_neg hmember]

theorem stepsAlike {depth : UInt32} (h : depth.toNat + 1 < UInt32.size)
    (hne : l.shape ≠ .endOfInput) : StepsAlike depth l := by
  cases hshape : l.shape with
  | symbol s => exact stepsAlike_symbol h hshape
  | endOfInput => exact absurd hshape hne
  | word =>
    have hresolve : ∀ fuel ls, resolveAngle (fuel + 1) depth.toNat (l :: ls) =
        if Keyword.isReserved l.word && !Keyword.isTypeArgumentWord l.word then .comparison
        else resolveAngle fuel depth.toNat ls := by
      intro fuel ls
      rw [resolveAngle]
      cases hreserved : Keyword.isReserved l.word <;>
        cases hword : Keyword.isTypeArgumentWord l.word <;>
        simp [Lexeme.isSymbol, mayStandInTypeArgs, Shape.closingAngles, hshape, hreserved, hword]
    have hstep : angleStep? depth l =
        if Keyword.isReserved l.word && !Keyword.isTypeArgumentWord l.word then
          some (.inl .comparison)
        else some (.inr depth) := by
      rw [angleStep?, hshape]
    by_cases hbreaks : (Keyword.isReserved l.word && !Keyword.isTypeArgumentWord l.word) = true
    · exact .decided (hstep.trans (if_pos hbreaks)) fun fuel ls =>
        (hresolve fuel ls).trans (if_pos hbreaks)
    · exact .goesOn (hstep.trans (if_neg hbreaks)) (Nat.le_succ _) fun fuel ls =>
        (hresolve fuel ls).trans (if_neg hbreaks)
  | _ =>
    have hresolve : ∀ fuel ls, resolveAngle (fuel + 1) depth.toNat (l :: ls) = .comparison := by
      intro fuel ls
      rw [resolveAngle]
      simp [Lexeme.isSymbol, mayStandInTypeArgs, Shape.closingAngles, hshape]
    exact .decided (by rw [angleStep?, hshape]) hresolve

end Lookahead

namespace Reader

/-- Decide about a `<` lexeme by lexeme, with `depth` brackets open. There is no answer if the
number of open brackets ever leaves the range of words. -/
def resolveAngle? : (fuel : Nat) → (depth : UInt32) → Reader → Option Lookahead.Verdict
  | 0, _, _ => some .undecided
  | fuel + 1, depth, r =>
    (Lookahead.angleStep? depth r.nextSignificant.1).bind fun
      | .inl verdict => some verdict
      | .inr depth => resolveAngle? fuel depth r.nextSignificant.2

/-- The number of open brackets never leaves the range of words, and what is decided lexeme by
lexeme is decided by the significant lexemes ahead. -/
theorem resolveAngle?_eq {fuel : Nat} {depth : UInt32} (h : depth.toNat + fuel < UInt32.size)
    (r : Reader) :
    r.resolveAngle? fuel depth =
      some (Lookahead.resolveAngle fuel depth.toNat r.significant) := by
  -- A lexeme opens at most one bracket, so the open ones stay few while there is less to read.
  induction fuel generalizing depth r with
  | zero => rfl
  | succ fuel ih =>
    rw [resolveAngle?]
    rcases r.nextSignificant_cases with ⟨hnil, hend⟩ | ⟨l, next, hnext, hne, hcons⟩
    · rw [hnil, Lookahead.angleStep?, hend]
      rfl
    · rw [hcons, hnext]
      cases Lookahead.stepsAlike (show depth.toNat + 1 < UInt32.size by omega) hne with
      | decided hstep hresolve => rw [hstep, hresolve, Option.bind_some]
      | goesOn hstep hle hresolve =>
        rw [hstep, hresolve, Option.bind_some]
        exact ih (by omega) next

open Lookahead (ClosesAt BreaksAt angle resolveAngle)

/-- **What a `<` opens is decided by the balance** of the angle brackets in the next 512
significant lexemes, wherever the reader stands. They make up type arguments if all of them may
stand there up to the one with which the balance first comes to zero; they do not if another lexeme
comes first, or one that closes more than is open. If they are all read before that, or the source
ends, the question stays open, and only then would more lexemes change the answer. The number of
open brackets is a word throughout. -/
theorem angle_decides_balance (r : Reader) :
    let ahead := r.significant
    (angle ahead = .opensTypeArgs ↔ ∃ k ≤ 512, ClosesAt 1 ahead k) ∧
    (angle ahead = .comparison ↔ ∃ k < 512, BreaksAt 1 ahead k) ∧
    (angle ahead = .undecided ↔
      (¬∃ k ≤ 512, ClosesAt 1 ahead k) ∧ ¬∃ k < 512, BreaksAt 1 ahead k) ∧
    r.resolveAngle? 512 1 = some (angle ahead) ∧
    ∀ budget ≥ 512, angle ahead ≠ .undecided → resolveAngle budget 1 ahead = angle ahead := by
  intro ahead
  have hcloses : angle ahead = .opensTypeArgs ↔ ∃ k ≤ 512, ClosesAt 1 ahead k :=
    Lookahead.resolveAngle_eq_opensTypeArgs_iff Nat.one_pos
  have hbreaks : angle ahead = .comparison ↔ ∃ k < 512, BreaksAt 1 ahead k :=
    Lookahead.resolveAngle_eq_comparison_iff Nat.one_pos
  refine ⟨hcloses, hbreaks, ?_, resolveAngle?_eq (by decide) r, fun budget hle hdecided =>
    Lookahead.resolveAngle_of_le Nat.one_pos hle hdecided⟩
  rw [← hcloses, ← hbreaks]
  cases angle ahead <;> simp

/-- Type arguments that are found stay found with a larger budget. -/
theorem resolveAngle_thousand_lexemes :
    resolveAngle 1000 1 (openAt "Map<String, ? super int[]>" 4).significant = .opensTypeArgs := by
  rw [(angle_decides_balance (openAt "Map<String, ? super int[]>" 4)).2.2.2.2 1000 (by decide)
    (by decide +kernel)]
  decide +kernel

end Reader

end JavaHighlight
