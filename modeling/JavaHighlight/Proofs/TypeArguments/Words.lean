import JavaHighlight.Proofs.Kinds

/-!
# Bracketed words

Words of kinds in which the brackets of type arguments pair up around nothing that breaks type
arguments. A word that closes exactly what it opens, as counted from left to right, is such a
word (`Closes.bracketed`).
-/

namespace JavaHighlight

namespace TokenKind

/-- The braces, parentheses, semicolons and literals, none of which type arguments contain. -/
def breaksTypeArgs (kind : TokenKind) : Bool :=
  kind ∈ delimiters || kind.isLiteral || kind = .unterminatedLiteral

end TokenKind

/-- Words in which each bracket that opens type arguments is matched by one that closes them,
and nothing between the two breaks type arguments. -/
inductive Bracketed : List TokenKind → Prop where
  | nil : Bracketed []
  | other {kind : TokenKind} {kinds : List TokenKind} :
      kind.isAngle = false → Bracketed kinds → Bracketed (kind :: kinds)
  | pair {inner rest : List TokenKind} :
      Bracketed inner → (∀ kind ∈ inner, kind.breaksTypeArgs = false) → Bracketed rest →
      Bracketed (.genericOpen :: (inner ++ .genericClose :: rest))

/-- Words that close `depth` lists of type arguments and all those that they open themselves,
and in which nothing breaks the type arguments it stands in. -/
inductive Closes : Nat → List TokenKind → Prop where
  | nil : Closes 0 []
  | other {depth : Nat} {kind : TokenKind} {kinds : List TokenKind} :
      kind.isAngle = false → depth = 0 ∨ kind.breaksTypeArgs = false → Closes depth kinds →
      Closes depth (kind :: kinds)
  | opening {depth : Nat} {kinds : List TokenKind} :
      Closes (depth + 1) kinds → Closes depth (.genericOpen :: kinds)
  | closing {depth : Nat} {kinds : List TokenKind} :
      Closes depth kinds → Closes (depth + 1) (.genericClose :: kinds)

namespace Closes

/-- Words without angle brackets of either kind may stand between the closing brackets. -/
def Clean (kinds : List TokenKind) : Prop :=
  Bracketed kinds ∧ ∀ kind ∈ kinds, kind.breaksTypeArgs = false

theorem clean_nil : Clean [] :=
  ⟨.nil, by simp⟩

theorem Clean.cons {kind : TokenKind} {kinds : List TokenKind} (h : Clean kinds)
    (hangle : kind.isAngle = false) (hkind : kind.breaksTypeArgs = false) :
    Clean (kind :: kinds) :=
  ⟨.other hangle h.1, by simpa [hkind] using h.2⟩

theorem Clean.pair {inner rest : List TokenKind} (hinner : Clean inner) (hrest : Clean rest) :
    Clean (.genericOpen :: (inner ++ .genericClose :: rest)) := by
  refine ⟨.pair hinner.1 hinner.2 hrest.1, ?_⟩
  intro kind hkind
  rw [List.mem_cons, List.mem_append, List.mem_cons] at hkind
  rcases hkind with rfl | hkind | rfl | hkind
  · decide
  · exact hinner.2 kind hkind
  · decide
  · exact hrest.2 kind hkind

/-- A word that closes `depth` lists of type arguments falls into as many clean words, each with
a closing bracket behind it, and a bracketed word. -/
theorem split {depth : Nat} {kinds : List TokenKind} (h : Closes depth kinds) :
    ∃ (words : List (List TokenKind)) (last : List TokenKind),
      words.length = depth ∧ (∀ word ∈ words, Clean word) ∧ Bracketed last ∧
      kinds = words.flatMap (· ++ [.genericClose]) ++ last := by
  induction h with
  | nil => exact ⟨[], [], rfl, by simp, .nil, rfl⟩
  | @other depth kind kinds hangle hkind _ ih =>
    obtain ⟨words, last, hlength, hwords, hlast, rfl⟩ := ih
    cases words with
    | nil => exact ⟨[], kind :: last, hlength, by simp, .other hangle hlast, rfl⟩
    | cons word words =>
      rcases hkind with rfl | hkind
      · cases hlength
      · refine ⟨(kind :: word) :: words, last, hlength, ?_, hlast, rfl⟩
        rw [List.forall_mem_cons] at hwords ⊢
        exact ⟨hwords.1.cons hangle hkind, hwords.2⟩
  | @opening depth kinds _ ih =>
    obtain ⟨words, last, hlength, hwords, hlast, rfl⟩ := ih
    match words with
    | [] => cases hlength
    | [word] =>
      have hword := hwords word (List.mem_singleton_self _)
      refine ⟨[], .genericOpen :: (word ++ .genericClose :: last), ?_, by simp,
        .pair hword.1 hword.2 hlast, by simp⟩
      simp only [List.length_cons, List.length_nil] at hlength ⊢
      omega
    | word :: next :: words =>
      rw [List.forall_mem_cons, List.forall_mem_cons] at hwords
      refine ⟨(.genericOpen :: (word ++ .genericClose :: next)) :: words, last, ?_, ?_, hlast,
        by simp⟩
      · simpa using hlength
      · rw [List.forall_mem_cons]
        exact ⟨hwords.1.pair hwords.2.1, hwords.2.2⟩
  | @closing depth kinds _ ih =>
    obtain ⟨words, last, hlength, hwords, hlast, rfl⟩ := ih
    refine ⟨[] :: words, last, by simpa using hlength, ?_, hlast, rfl⟩
    rw [List.forall_mem_cons]
    exact ⟨clean_nil, hwords⟩

theorem bracketed {kinds : List TokenKind} (h : Closes 0 kinds) : Bracketed kinds := by
  obtain ⟨words, last, hlength, -, hlast, rfl⟩ := h.split
  rw [List.length_eq_zero_iff] at hlength
  subst hlength
  exact hlast

theorem replicate_closing {depth : Nat} {kinds : List TokenKind} (h : Closes depth kinds)
    (n : Nat) : Closes (depth + n) (List.replicate n .genericClose ++ kinds) := by
  induction n with
  | zero => exact h
  | succ n ih =>
    rw [List.replicate_succ, List.cons_append]
    exact .closing ih

end Closes

end JavaHighlight
