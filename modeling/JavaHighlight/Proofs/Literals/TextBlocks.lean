import JavaHighlight.Proofs.Lines.Border
import JavaHighlight.Proofs.Tiling.Scan

/-!
# Text blocks

A text block ends behind the first three quotes in a row of which no backslash takes one in
(`TextBlock.EndsBehind`); without such quotes it reaches to the end of the source
(`Reader.read_textBlock`).

Whether a backslash takes in the character behind a text follows from how many backslashes the
text ends in. The scanner jumps over a backslash together with the character behind it instead,
and does not see such a pair again. That both agree is shown step by step (`EndsBehind.cons_iff`,
`EndsBehind.escape_iff`): no step changes what is taken in further on.
-/

namespace JavaHighlight

open Text (isLineEnd)

namespace TextBlock

def delimiter : List Char :=
  ['"', '"', '"']

def backslashes (cs : List Char) : Nat :=
  (cs.reverse.takeWhile (· = '\\')).length

/-- A backslash takes in the character behind the text. Of backslashes in a row every second one
is itself taken in. -/
def Escapes (cs : List Char) : Prop :=
  backslashes cs % 2 = 1

instance : DecidablePred Escapes :=
  fun cs => inferInstanceAs (Decidable (backslashes cs % 2 = 1))

/-- A text block that goes on with `cs` may end behind `content`: three quotes stand there, and
none of them is taken in by a backslash. -/
structure EndsBehind (cs content : List Char) : Prop where
  quotes : content ++ delimiter <+: cs
  unescaped : ∀ n < 3, ¬Escapes (content ++ List.replicate n '"')

/-- The content of a text block that goes on with `cs`: what stands in front of the first place
where it may end. -/
structure Content (cs content : List Char) : Prop where
  ends : EndsBehind cs content
  length_le : ∀ other, EndsBehind cs other → content.length ≤ other.length

/-- The quotes that a text block is meant to start with have nothing but blanks behind them on
their line. -/
def Opens (cs : List Char) : Prop :=
  ∃ blanks terminator after, cs = blanks ++ terminator :: after ∧
    (∀ c ∈ blanks, c ∈ [' ', '\t', '\x0c']) ∧ isLineEnd terminator = true

variable {c : Char} {cs content : List Char}

theorem backslashes_append (a b : List Char) :
    backslashes (a ++ b) =
      if backslashes b = b.length then backslashes a + b.length else backslashes b := by
  unfold backslashes
  rw [List.reverse_append, List.takeWhile_append, List.length_reverse]
  split_ifs
  · rw [List.length_append, List.length_reverse, Nat.add_comm]
  · rfl

theorem escapes_cons_iff (hc : c ≠ '\\') : Escapes (c :: cs) ↔ Escapes cs := by
  have hnone : backslashes [c] = 0 := by simp [backslashes, hc]
  have hcons := backslashes_append [c] cs
  rw [List.singleton_append, hnone] at hcons
  unfold Escapes
  rw [hcons]
  split_ifs with hall
  · rw [hall, Nat.zero_add]
  · rfl

theorem escapes_escape_iff (c : Char) : Escapes ('\\' :: c :: cs) ↔ Escapes cs := by
  have heven : backslashes ['\\', c] % 2 = 0 := by
    by_cases hc : c = '\\' <;> simp [backslashes, hc]
  have hcons := backslashes_append ['\\', c] cs
  rw [List.cons_append, List.singleton_append] at hcons
  unfold Escapes
  rw [hcons]
  split_ifs with hall
  · omega
  · rfl

theorem not_escapes_quotes {n : Nat} (hn : 0 < n) :
    ¬Escapes (content ++ List.replicate n '"') := by
  have hnone : backslashes (List.replicate n '"') = 0 := by
    unfold backslashes
    rw [List.reverse_replicate, List.takeWhile_replicate]
    rfl
  unfold Escapes
  rw [backslashes_append, hnone, List.length_replicate, if_neg (by omega)]
  decide

theorem endsBehind_iff :
    EndsBehind cs content ↔ content ++ delimiter <+: cs ∧ ¬Escapes content := by
  constructor
  · intro h
    refine ⟨h.quotes, ?_⟩
    have hfirst := h.unescaped 0 (by decide)
    rwa [List.replicate_zero, List.append_nil] at hfirst
  · rintro ⟨hquotes, hfirst⟩
    refine ⟨hquotes, fun n _ => ?_⟩
    cases n with
    | zero => rwa [List.replicate_zero, List.append_nil]
    | succ n => exact not_escapes_quotes n.succ_pos

namespace EndsBehind

theorem here : EndsBehind ('"' :: '"' :: '"' :: cs) [] :=
  endsBehind_iff.mpr ⟨⟨cs, rfl⟩, by decide⟩

theorem length_le (h : EndsBehind cs content) : content.length + 3 ≤ cs.length := by
  have hle := h.quotes.length_le
  rwa [List.length_append] at hle

theorem cons_iff (hc : c ≠ '\\') (hquotes : ∀ rest, c = '"' → cs ≠ '"' :: '"' :: rest) :
    EndsBehind (c :: cs) content ↔ ∃ body, content = [c] ++ body ∧ EndsBehind cs body := by
  constructor
  · intro h
    obtain ⟨hfront, hfirst⟩ := endsBehind_iff.mp h
    cases content with
    | nil =>
      obtain ⟨rest, hrest⟩ := hfront
      obtain ⟨rfl, rfl⟩ := List.cons.inj hrest
      exact absurd rfl (hquotes rest rfl)
    | cons d body =>
      obtain ⟨rfl, hbody⟩ := List.cons_prefix_cons.mp hfront
      exact ⟨body, rfl, endsBehind_iff.mpr ⟨hbody, mt (escapes_cons_iff hc).mpr hfirst⟩⟩
  · rintro ⟨body, rfl, h⟩
    obtain ⟨hbody, hfirst⟩ := endsBehind_iff.mp h
    exact endsBehind_iff.mpr
      ⟨List.cons_prefix_cons.mpr ⟨rfl, hbody⟩, mt (escapes_cons_iff hc).mp hfirst⟩

theorem escape_iff :
    EndsBehind ('\\' :: c :: cs) content ↔
      ∃ body, content = ['\\', c] ++ body ∧ EndsBehind cs body := by
  constructor
  · intro h
    obtain ⟨hfront, hfirst⟩ := endsBehind_iff.mp h
    match content with
    | [] =>
      obtain ⟨rest, hrest⟩ := hfront
      cases hrest
    | [d] =>
      obtain ⟨rfl, -⟩ := List.cons_prefix_cons.mp hfront
      exact absurd (by decide) hfirst
    | d :: e :: body =>
      obtain ⟨rfl, htail⟩ := List.cons_prefix_cons.mp hfront
      obtain ⟨rfl, hbody⟩ := List.cons_prefix_cons.mp htail
      exact ⟨body, rfl, endsBehind_iff.mpr ⟨hbody, mt (escapes_escape_iff e).mpr hfirst⟩⟩
  · rintro ⟨body, rfl, h⟩
    obtain ⟨hbody, hfirst⟩ := endsBehind_iff.mp h
    refine endsBehind_iff.mpr ⟨?_, mt (escapes_escape_iff c).mp hfirst⟩
    exact List.cons_prefix_cons.mpr ⟨rfl, List.cons_prefix_cons.mpr ⟨rfl, hbody⟩⟩

end EndsBehind

/-- What the answer of the search for the end of a text block means. -/
def FoundIn (cs : List Char) : Option Nat → Prop
  | some n => ∃ content, Content cs content ∧ n = content.length + 3
  | none => ∀ content, ¬EndsBehind cs content

/-- A step of the search over characters that end nothing and change nothing further on. -/
theorem FoundIn.behind {end? : Option Nat} (step : List Char)
    (hstep : ∀ content, EndsBehind (step ++ cs) content ↔
      ∃ body, content = step ++ body ∧ EndsBehind cs body)
    (h : FoundIn cs end?) : FoundIn (step ++ cs) (end?.map (· + step.length)) := by
  cases end? with
  | none =>
    intro content hcontent
    obtain ⟨body, -, hbody⟩ := (hstep content).mp hcontent
    exact h body hbody
  | some n =>
    obtain ⟨body, hbody, rfl⟩ := h
    refine ⟨step ++ body, ⟨(hstep _).mpr ⟨body, rfl, hbody.ends⟩, fun other hother => ?_⟩, ?_⟩
    · obtain ⟨later, rfl, hlater⟩ := (hstep other).mp hother
      have := hbody.length_le later hlater
      rw [List.length_append, List.length_append]
      omega
    · dsimp only
      rw [List.length_append]
      omega

/-- The search for the end of a text block finds the first place where it may end. -/
theorem foundIn_textBlockEnd? (cs : List Char) : FoundIn cs (Construct.textBlockEnd? cs) := by
  fun_induction Construct.textBlockEnd? cs with
  | case1 => exact fun content h => absurd h.length_le (by simp)
  | case2 c cs ih => exact ih.behind ['\\', c] fun _ => EndsBehind.escape_iff
  | case3 cs => exact ⟨[], ⟨EndsBehind.here, fun _ _ => Nat.zero_le _⟩, rfl⟩
  | case4 c cs hback hquotes ih =>
    by_cases hc : c = '\\'
    · cases cs with
      | nil => exact fun content h => absurd h.length_le (by simp)
      | cons d cs => exact absurd rfl (hback d cs hc)
    · exact ih.behind [c] fun _ => EndsBehind.cons_iff hc hquotes

end TextBlock

namespace Reader

open TextBlock

/-- **Where a text block ends.** It ends behind the first three quotes in a row of which no
backslash takes one in, and at the end of the source if there are none. -/
theorem read_textBlock (front rest : String) :
    let l := (openAt (front ++ ("\"\"\"" ++ rest)) front.utf8ByteSize).lexeme
    ((∃ content, Content rest.toList content ∧
        l = ⟨.textBlock, delimiter ++ content ++ delimiter⟩) ∨
      (∀ content, ¬EndsBehind rest.toList content) ∧
        l = ⟨.unterminatedTextBlock, delimiter ++ rest.toList⟩) ∧
      l.length = Text.byteSize l.text := by
  intro l
  have hl : l = Lexeme.first (delimiter ++ rest.toList) := by
    show (openAt _ _).lexeme = _
    rw [lexeme_openAt_append, String.toList_append]
    rfl
  have hmeasure : Lexeme.measure (delimiter ++ rest.toList) =
      (if (Construct.textBlockEnd? rest.toList).isSome then .textBlock else .unterminatedTextBlock,
        3 + (Construct.textBlockEnd? rest.toList).getD rest.toList.length) := by
    show (if (Literal.blockContent rest.toList).1 then Shape.textBlock else .unterminatedTextBlock,
      3 + (Literal.blockContent rest.toList).2) = _
    rw [Literal.blockContent_eq]
  have hfound := foundIn_textBlockEnd? rest.toList
  refine ⟨?_, by rw [hl, Lexeme.length_first]⟩
  cases hend : Construct.textBlockEnd? rest.toList with
  | some n =>
    rw [hend] at hfound hmeasure
    obtain ⟨content, hcontent, rfl⟩ := hfound
    obtain ⟨after, hafter⟩ := hcontent.ends.quotes
    refine .inl ⟨content, hcontent, ?_⟩
    have hsplit : delimiter ++ rest.toList = (delimiter ++ content ++ delimiter) ++ after := by
      rw [← hafter, List.append_assoc, List.append_assoc, List.append_assoc]
    rw [hl, hsplit]
    apply Lexeme.first_of_measure_eq
    rw [← hsplit, hmeasure, List.append_assoc, List.length_append, List.length_append]
    rfl
  | none =>
    rw [hend] at hfound hmeasure
    refine .inr ⟨hfound, ?_⟩
    rw [hl]
    apply Lexeme.first_of_measure_length
    rw [hmeasure, List.length_append]
    rfl

/-- Three quotes start a text block also where other characters than blanks follow on the line. -/
theorem textBlock_on_one_line :
    ¬Opens "abc\"\"\"".toList ∧
      (openAt "\"\"\"abc\"\"\"" 0).lexeme = ⟨.textBlock, "\"\"\"abc\"\"\"".toList⟩ := by
  refine ⟨?_, by decide +kernel⟩
  rintro ⟨blanks, terminator, after, heq, hblanks, hterminator⟩
  cases blanks with
  | nil =>
    obtain ⟨rfl, -⟩ := List.cons.inj heq
    cases hterminator
  | cons b blanks =>
    obtain ⟨rfl, -⟩ := List.cons.inj heq
    exact absurd (hblanks _ List.mem_cons_self) (by decide)

end Reader

end JavaHighlight
