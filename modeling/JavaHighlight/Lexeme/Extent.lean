/-!
# Extents

An extent says how many characters at the start of a text belong to something. Extents are put
together with `followedBy`: the second one starts where the first one ends. A measurement is
an answer together with the number of characters it was read from.
-/

namespace JavaHighlight

/-- The number of characters at the start of a text that belong to something. -/
abbrev Extent := List Char → Nat

namespace Extent

/-- All characters up to the first that fails `p`. -/
def run (p : Char → Bool) : Extent :=
  fun cs => (cs.takeWhile p).length

/-- The first character, if it satisfies `p`. -/
def one (p : Char → Bool) : Extent
  | [] => 0
  | c :: _ => if p c then 1 else 0

/-- A first extent and then a second one. -/
def followedBy (first second : Extent) : Extent :=
  fun cs => first cs + second (cs.drop (first cs))

/-- The second extent, but only behind a nonempty first one. -/
def thenIfPresent (first second : Extent) : Extent :=
  fun cs => if first cs = 0 then 0 else first.followedBy second cs

theorem run_cons_of_pos {p : Char → Bool} {c : Char} (h : p c = true) (cs : List Char) :
    run p (c :: cs) = 1 + run p cs := by
  unfold run
  rw [List.takeWhile_cons_of_pos h, List.length_cons, Nat.add_comm]

theorem run_cons_of_neg {p : Char → Bool} {c : Char} (h : p c = false) (cs : List Char) :
    run p (c :: cs) = 0 := by
  unfold run
  rw [List.takeWhile_cons_of_neg (Bool.not_eq_true _ ▸ h), List.length_nil]

/-- An extent never leaves its text. -/
def Bounded (e : Extent) : Prop :=
  ∀ cs, e cs ≤ cs.length

theorem bounded_run (p : Char → Bool) : Bounded (run p) :=
  fun _ => (List.takeWhile_sublist p).length_le

theorem bounded_one (p : Char → Bool) : Bounded (one p) := by
  intro cs
  cases cs with
  | nil => simp [one]
  | cons c cs =>
    rw [one]
    split <;> simp

theorem Bounded.followedBy {first second : Extent} (h₁ : Bounded first) (h₂ : Bounded second) :
    Bounded (first.followedBy second) := by
  intro cs
  have hfirst := h₁ cs
  have hsecond := h₂ (cs.drop (first cs))
  rw [List.length_drop] at hsecond
  simp only [Extent.followedBy]
  omega

theorem Bounded.thenIfPresent {first second : Extent} (h₁ : Bounded first) (h₂ : Bounded second) :
    Bounded (first.thenIfPresent second) := by
  intro cs
  simp only [Extent.thenIfPresent]
  split
  · omega
  · exact h₁.followedBy h₂ cs

end Extent

/-- Count `n` characters in front of a text that was measured. -/
def behind {α : Type} (n : Nat) (measured : α × Nat) : α × Nat :=
  (measured.1, n + measured.2)

@[simp] theorem fst_behind {α : Type} (n : Nat) (m : α × Nat) : (behind n m).1 = m.1 := rfl

@[simp] theorem snd_behind {α : Type} (n : Nat) (m : α × Nat) : (behind n m).2 = n + m.2 := rfl

theorem behind_eq_iff {α : Type} {n k : Nat} {m : α × Nat} {a : α} :
    behind n m = (a, n + k) ↔ m = (a, k) := by
  simp [behind, Prod.ext_iff]

end JavaHighlight
