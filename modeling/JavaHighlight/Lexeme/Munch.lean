import JavaHighlight.Lexeme.Symbol

/-!
# Maximal munch

The symbol at the start of a text is told by its first character and a look at the next ones
(`Symbol.longest?`). It is the longest symbol that the text starts with, if there is one
(`Symbol.longest?_eq_some_iff`).
-/

namespace JavaHighlight.Symbol

/-! ## The decision -/

/-- `assign` in front of an equals sign, and `bare` in front of anything else. -/
def withEqual (bare assign : Symbol) : List Char → Symbol
  | '=' :: _ => assign
  | _ => bare

/-- `double` in front of a second `c`, and otherwise as in `withEqual`. -/
def doubled (c : Char) (bare double assign : Symbol) (cs : List Char) : Symbol :=
  if cs.head? = some c then double else withEqual bare assign cs

def afterMinus : List Char → Symbol
  | '>' :: _ => .arrow
  | cs => doubled '-' .minus .minusMinus .minusEqual cs

def afterLess : List Char → Symbol
  | '<' :: cs => withEqual .shiftLeft .shiftLeftEqual cs
  | cs => withEqual .less .lessEqual cs

def afterGreater : List Char → Symbol
  | '>' :: '>' :: cs => withEqual .unsignedShiftRight .unsignedShiftRightEqual cs
  | '>' :: cs => withEqual .shiftRight .shiftRightEqual cs
  | cs => withEqual .greater .greaterEqual cs

def afterPoint : List Char → Symbol
  | '.' :: '.' :: _ => .ellipsis
  | _ => .dot

def afterColon : List Char → Symbol
  | ':' :: _ => .colonColon
  | _ => .colon

/-- The symbol at the start of a text. -/
def longest? : List Char → Option Symbol
  | '+' :: cs => some (doubled '+' .plus .plusPlus .plusEqual cs)
  | '-' :: cs => some (afterMinus cs)
  | '*' :: cs => some (withEqual .star .starEqual cs)
  | '/' :: cs => some (withEqual .slash .slashEqual cs)
  | '%' :: cs => some (withEqual .percent .percentEqual cs)
  | '^' :: cs => some (withEqual .caret .caretEqual cs)
  | '!' :: cs => some (withEqual .bang .bangEqual cs)
  | '=' :: cs => some (withEqual .equal .equalEqual cs)
  | '&' :: cs => some (doubled '&' .ampersand .ampersandAmpersand .ampersandEqual cs)
  | '|' :: cs => some (doubled '|' .pipe .pipePipe .pipeEqual cs)
  | '<' :: cs => some (afterLess cs)
  | '>' :: cs => some (afterGreater cs)
  | '.' :: cs => some (afterPoint cs)
  | ':' :: cs => some (afterColon cs)
  | '~' :: _ => some .tilde
  | '?' :: _ => some .question
  | '(' :: _ => some .leftParen
  | ')' :: _ => some .rightParen
  | '[' :: _ => some .leftBracket
  | ']' :: _ => some .rightBracket
  | '\x7b' :: _ => some .leftBrace
  | '\x7d' :: _ => some .rightBrace
  | ';' :: _ => some .semicolon
  | ',' :: _ => some .comma
  | '@' :: _ => some .atSign
  | _ => none

/-! ## The longest symbol -/

/-- A text starts with a symbol and with no longer one. -/
structure IsLongest (cs : List Char) (s : Symbol) : Prop where
  starts : s.startsText cs = true
  length_le : ∀ t : Symbol, t.startsText cs = true → t.spelling.length ≤ s.spelling.length

/-- The characters that may go on with a longer symbol behind this one. -/
def nexts : Symbol → List Char
  | .plus => ['=', '+']
  | .minus => ['=', '-', '>']
  | .ampersand => ['=', '&']
  | .pipe => ['=', '|']
  | .less => ['=', '<']
  | .greater | .shiftRight => ['=', '>']
  | .star | .slash | .percent | .caret | .bang | .equal | .shiftLeft | .unsignedShiftRight => ['=']
  | .dot => ['.']
  | .colon => [':']
  | _ => []

variable {u cs : List Char} {c : Char} {s t bare double assign : Symbol}

theorem startsText_iff : s.startsText cs = true ↔ s.spelling.toList <+: cs :=
  List.isPrefixOf_iff_prefix

theorem head?_spelling (h : t.startsText (c :: cs) = true) :
    t.spelling.toList.head? = some c := by
  have hpre := startsText_iff.mp h
  cases hspelling : t.spelling.toList with
  | nil => cases t <;> cases hspelling
  | cons d ds =>
    rw [hspelling] at hpre
    rw [(List.cons_prefix_cons.mp hpre).1]
    rfl

theorem head?_ne_of_forall (h : ∀ ds, cs = c :: ds → False) : cs.head? ≠ some c := by
  intro hhead
  obtain ⟨ds, rfl⟩ := List.head?_eq_some_iff.mp hhead
  exact h ds rfl

theorem mem_nexts {tail : List Char} (h : t.spelling.toList = s.spelling.toList ++ c :: tail) :
    c ∈ s.nexts := by
  have key : ∀ s ∈ all, ∀ t ∈ all, s.spelling.toList.isPrefixOf t.spelling.toList = true →
      (t.spelling.toList.drop s.spelling.toList.length).head?.all (· ∈ s.nexts) = true := by
    decide +kernel
  have hnext := key s s.mem_all t t.mem_all (List.isPrefixOf_iff_prefix.mpr ⟨_, h.symm⟩)
  rw [h, List.drop_left] at hnext
  exact of_decide_eq_true hnext

theorem isLongest_of_forall_nexts (hs : s.spelling.toList = u)
    (h : ∀ d ∈ s.nexts, cs.head? ≠ some d) : IsLongest (u ++ cs) s := by
  refine ⟨startsText_iff.mpr (hs ▸ List.prefix_append u cs), fun t ht => ?_⟩
  have ht := startsText_iff.mp ht
  rw [← String.length_toList, ← String.length_toList, hs]
  rcases List.prefix_or_prefix_of_prefix ht (List.prefix_append u cs) with hle | ⟨tail, htail⟩
  · exact hle.length_le
  · rw [← htail, List.prefix_append_right_inj] at ht
    cases tail with
    | nil => exact Nat.le_of_eq (by rw [← htail, List.append_nil])
    | cons d tail =>
      obtain ⟨rest, rfl⟩ := ht
      exact absurd rfl (h d (mem_nexts (t := t) (hs.symm ▸ htail.symm)))

theorem isLongest_of_nexts_eq_nil (hs : s.spelling.toList = u) (h : s.nexts = [])
    (cs : List Char) : IsLongest (u ++ cs) s :=
  isLongest_of_forall_nexts hs (by simp [h])

theorem isLongest_single (hs : s.spelling.toList = [c]) (h : s.nexts = []) (cs : List Char) :
    IsLongest (c :: cs) s :=
  isLongest_of_nexts_eq_nil hs h cs

/-- The characters `others` may go on with other symbols, but none of them comes next. -/
theorem isLongest_withEqual {others : List Char} (hbare : bare.spelling.toList = u)
    (hassign : assign.spelling.toList = u ++ ['=']) (hnexts : bare.nexts = '=' :: others)
    (hend : assign.nexts = []) (hothers : ∀ d ∈ others, cs.head? ≠ some d) :
    IsLongest (u ++ cs) (withEqual bare assign cs) := by
  fun_cases withEqual bare assign cs with
  | case1 cs =>
    rw [List.append_cons]
    exact isLongest_of_nexts_eq_nil hassign hend cs
  | case2 cs hcs =>
    refine isLongest_of_forall_nexts hbare ?_
    rw [hnexts, List.forall_mem_cons]
    exact ⟨head?_ne_of_forall hcs, hothers⟩

theorem isLongest_doubled {others : List Char} (hbare : bare.spelling.toList = [c])
    (hdouble : double.spelling.toList = [c, c]) (hassign : assign.spelling.toList = [c, '='])
    (hnexts : bare.nexts = '=' :: c :: others) (hends : double.nexts = [] ∧ assign.nexts = [])
    (hothers : ∀ d ∈ others, cs.head? ≠ some d) :
    IsLongest (c :: cs) (doubled c bare double assign cs) := by
  unfold doubled
  split
  · next hhead =>
    obtain ⟨ds, rfl⟩ := List.head?_eq_some_iff.mp hhead
    exact isLongest_of_nexts_eq_nil (u := [c, c]) hdouble hends.1 ds
  · next hhead =>
    exact isLongest_withEqual (u := [c]) hbare hassign hnexts hends.2
      (List.forall_mem_cons.mpr ⟨hhead, hothers⟩)

theorem isLongest_afterMinus (cs : List Char) : IsLongest ('-' :: cs) (afterMinus cs) := by
  fun_cases afterMinus cs with
  | case1 cs => exact isLongest_of_nexts_eq_nil (u := ['-', '>']) rfl rfl cs
  | case2 cs hcs =>
    exact isLongest_doubled rfl rfl rfl rfl ⟨rfl, rfl⟩
      (List.forall_mem_singleton.mpr (head?_ne_of_forall hcs))

theorem isLongest_afterLess (cs : List Char) : IsLongest ('<' :: cs) (afterLess cs) := by
  fun_cases afterLess cs with
  | case1 cs =>
    exact isLongest_withEqual (u := ['<', '<']) rfl rfl rfl rfl (List.forall_mem_nil _)
  | case2 cs hcs =>
    exact isLongest_withEqual (u := ['<']) rfl rfl rfl rfl
      (List.forall_mem_singleton.mpr (head?_ne_of_forall hcs))

theorem isLongest_afterGreater (cs : List Char) : IsLongest ('>' :: cs) (afterGreater cs) := by
  fun_cases afterGreater cs with
  | case1 cs =>
    exact isLongest_withEqual (u := ['>', '>', '>']) rfl rfl rfl rfl (List.forall_mem_nil _)
  | case2 cs hcs =>
    exact isLongest_withEqual (u := ['>', '>']) rfl rfl rfl rfl
      (List.forall_mem_singleton.mpr (head?_ne_of_forall hcs))
  | case3 cs _ hcs =>
    exact isLongest_withEqual (u := ['>']) rfl rfl rfl rfl
      (List.forall_mem_singleton.mpr (head?_ne_of_forall hcs))

/-- Two points are no symbol, so a second point alone does not go on with one. -/
theorem isLongest_afterPoint (cs : List Char) : IsLongest ('.' :: cs) (afterPoint cs) := by
  fun_cases afterPoint cs with
  | case1 cs => exact isLongest_of_nexts_eq_nil (u := ['.', '.', '.']) rfl rfl cs
  | case2 cs hcs =>
    have key : ∀ t ∈ all, t.spelling.toList.head? = some '.' → t = .dot ∨ t = .ellipsis := by
      decide +kernel
    refine ⟨rfl, fun t ht => ?_⟩
    rcases key t t.mem_all (head?_spelling ht) with rfl | rfl
    · exact Nat.le_refl _
    · obtain ⟨rest, hrest⟩ := startsText_iff.mp ht
      exact absurd (List.cons.inj hrest).2.symm (hcs rest)

theorem isLongest_afterColon (cs : List Char) : IsLongest (':' :: cs) (afterColon cs) := by
  fun_cases afterColon cs with
  | case1 cs => exact isLongest_of_nexts_eq_nil (u := [':', ':']) rfl rfl cs
  | case2 cs hcs =>
    exact isLongest_of_forall_nexts (u := [':']) rfl
      (List.forall_mem_singleton.mpr (head?_ne_of_forall hcs))

theorem isLongest_of_longest? : ∀ s ∈ longest? cs, IsLongest cs s := by
  rw [longest?.eq_def]
  split <;> rintro s ⟨⟩
  · exact isLongest_doubled rfl rfl rfl rfl ⟨rfl, rfl⟩ (List.forall_mem_nil _)
  · exact isLongest_afterMinus _
  · exact isLongest_withEqual (u := ['*']) rfl rfl rfl rfl (List.forall_mem_nil _)
  · exact isLongest_withEqual (u := ['/']) rfl rfl rfl rfl (List.forall_mem_nil _)
  · exact isLongest_withEqual (u := ['%']) rfl rfl rfl rfl (List.forall_mem_nil _)
  · exact isLongest_withEqual (u := ['^']) rfl rfl rfl rfl (List.forall_mem_nil _)
  · exact isLongest_withEqual (u := ['!']) rfl rfl rfl rfl (List.forall_mem_nil _)
  · exact isLongest_withEqual (u := ['=']) rfl rfl rfl rfl (List.forall_mem_nil _)
  · exact isLongest_doubled rfl rfl rfl rfl ⟨rfl, rfl⟩ (List.forall_mem_nil _)
  · exact isLongest_doubled rfl rfl rfl rfl ⟨rfl, rfl⟩ (List.forall_mem_nil _)
  · exact isLongest_afterLess _
  · exact isLongest_afterGreater _
  · exact isLongest_afterPoint _
  · exact isLongest_afterColon _
  all_goals exact isLongest_single rfl rfl _

theorem longest?_ne_none (h : t.startsText cs = true) : longest? cs ≠ none := by
  obtain ⟨rest, rfl⟩ := startsText_iff.mp h
  cases t <;> exact Option.some_ne_none _

theorem eq_of_spelling_eq (h : s.spelling.toList = t.spelling.toList) : s = t := by
  have key : ∀ s ∈ all, all.find? (·.spelling.toList = s.spelling.toList) = some s := by
    decide +kernel
  have hs := key s s.mem_all
  rw [h, key t t.mem_all] at hs
  exact (Option.some.inj hs).symm

theorem IsLongest.eq (hs : IsLongest cs s) (ht : IsLongest cs t) : s = t := by
  have hlength : s.spelling.toList.length = t.spelling.toList.length := by
    rw [String.length_toList, String.length_toList]
    exact Nat.le_antisymm (ht.length_le s hs.starts) (hs.length_le t ht.starts)
  have hpre := List.prefix_of_prefix_length_le (startsText_iff.mp hs.starts)
    (startsText_iff.mp ht.starts) (Nat.le_of_eq hlength)
  exact eq_of_spelling_eq (hpre.eq_of_length hlength)

/-- **The decision finds the longest symbol.** -/
theorem longest?_eq_some_iff : longest? cs = some s ↔ IsLongest cs s := by
  refine ⟨fun h => isLongest_of_longest? s h, fun h => ?_⟩
  obtain ⟨t, ht⟩ := Option.ne_none_iff_exists'.mp (longest?_ne_none h.starts)
  rw [ht, h.eq (isLongest_of_longest? t ht)]

theorem longest?_congr {ds : List Char}
    (h : ∀ s : Symbol, s.startsText cs = true ↔ s.startsText ds = true) :
    longest? cs = longest? ds := by
  refine Option.ext fun s => ?_
  have hlongest : IsLongest cs s ↔ IsLongest ds s :=
    ⟨fun hs => ⟨(h s).mp hs.starts, fun t ht => hs.length_le t ((h t).mpr ht)⟩,
      fun hs => ⟨(h s).mpr hs.starts, fun t ht => hs.length_le t ((h t).mp ht)⟩⟩
  rw [longest?_eq_some_iff, longest?_eq_some_iff, hlongest]

end JavaHighlight.Symbol
