import JavaHighlight.Proofs.Lines.Closed
import JavaHighlight.Proofs.Meaning.Alike

/-!
# The terminator of a line

A line without its terminator and the same line with it have the same lexemes but for the last
one (`Line.ending`): the terminator is a blank of its own, goes on with a blank, or goes on with a
construct that is open there. A comment that is open at the end of a line is trivia like a blank,
so only a text block counts.
-/

namespace JavaHighlight

open Text (LineBorder isLineEnd)

namespace Text

def terminators : List String := ["\n", "\r\n", "\r"]

variable {terminator : String}

theorem of_mem_terminators (h : terminator ∈ terminators) :
    terminator.toList.head?.any isLineEnd = true ∧
      Lexeme.ofText terminator.toList = [⟨.blank, terminator.toList⟩] ∧
      Construct.textBlockEnd? terminator.toList = none ∧
      Comment.closing? terminator.toList = none := by
  have key : ∀ terminator ∈ terminators, terminator.toList.head?.any isLineEnd = true ∧
      Lexeme.ofText terminator.toList = [⟨.blank, terminator.toList⟩] ∧
      Construct.textBlockEnd? terminator.toList = none ∧
      Comment.closing? terminator.toList = none := by decide
  exact key terminator h

theorem lineBorder_of_mem_terminators (h : terminator ∈ terminators) (cs : List Char) :
    LineBorder cs terminator.toList := by
  have hhead := (of_mem_terminators h).1
  cases hlist : terminator.toList with
  | nil =>
    rw [hlist] at hhead
    cases hhead
  | cons c rest =>
    rw [hlist] at hhead
    exact .inr (.of_isLineEnd hhead cs rest)

theorem terminated_append (h : terminator ∈ terminators) {cs : List Char}
    (hcs : ∀ c ∈ cs, isLineEnd c = false) : Terminated (cs ++ terminator.toList) := by
  induction cs with
  | nil =>
    simp only [terminators, List.mem_cons, List.not_mem_nil, or_false] at h
    rcases h with rfl | rfl | rfl
    · exact .single rfl
    · exact .crlf
    · exact .single rfl
  | cons c cs ih =>
    rw [List.forall_mem_cons] at hcs
    exact .cons hcs.1 (ih hcs.2)

end Text

open Text (terminators)

theorem Construct.end?_of_mem_terminators {terminator : String} (h : terminator ∈ terminators)
    (construct : Construct) : construct.end? terminator.toList = none := by
  obtain ⟨-, -, hblock, hcomment⟩ := Text.of_mem_terminators h
  cases construct with
  | textBlock => exact hblock
  | _ => exact hcomment

/-- A lexeme that is read as trivia in a line, be it that its end may come on a later line. -/
def Lexeme.TriviaInLine (l : Lexeme) : Prop :=
  ∃ kind : TokenKind, kind.isTrivia = true ∧
    ∀ ctx ahead, Reading.ofLexeme .line ctx l ahead = .plain l kind

theorem Lexeme.triviaInLine_blank (text : List Char) : TriviaInLine ⟨.blank, text⟩ :=
  ⟨.whitespace, by decide, fun _ _ => rfl⟩

theorem Lexeme.triviaInLine_of_ofLexeme? {l : Lexeme} {construct : Construct}
    (h : Construct.ofLexeme? l = some construct) (hne : construct ≠ .textBlock) :
    l.TriviaInLine :=
  ⟨construct.kind, Construct.isTrivia_kind hne, Construct.ofLexeme_line h hne⟩

namespace Line

variable {terminator : String} {cs : List Char}

theorem carryBehind_of_mem_terminators (h : terminator ∈ terminators)
    (carry : Option Construct) : carryBehind carry terminator.toList = carry := by
  cases carry with
  | none => rw [carryBehind_none_eq, (Text.of_mem_terminators h).2.1]; rfl
  | some construct =>
    exact if_pos (staysOpen_some_iff.mpr (construct.end?_of_mem_terminators h))

theorem carryBehind_append_terminator (h : terminator ∈ terminators) (carry : Option Construct)
    (cs : List Char) : carryBehind carry (cs ++ terminator.toList) = carryBehind carry cs := by
  rw [carryBehind_append carry (Text.lineBorder_of_mem_terminators h cs),
    carryBehind_of_mem_terminators h]

theorem staysOpen_append_terminator (h : terminator ∈ terminators) {carry : Option Construct}
    (hstays : staysOpen carry cs = true) : staysOpen carry (cs ++ terminator.toList) = true := by
  rw [(append_of_staysOpen (Text.lineBorder_of_mem_terminators h cs) hstays).1]
  cases carry with
  | none => cases hstays
  | some construct => exact staysOpen_some_iff.mpr (construct.end?_of_mem_terminators h)

/-- How the lexemes of a text end if nothing is open in front of it, without a terminator and with
one. -/
inductive Ending (cs terminator : List Char) : Prop
  /-- What is different at the end is trivia. -/
  | trivia (front a b : List Lexeme) (hcarry : carryBehind none cs ≠ some .textBlock)
      (hbare : Lexeme.ofText cs = front ++ a)
      (hended : Lexeme.ofText (cs ++ terminator) = front ++ b)
      (htrivia : ∀ l ∈ a ++ b, l.TriviaInLine)
      (hlooks : List.Forall₂ Lexeme.LooksLike (b.filter (·.isSignificant))
        (a.filter (·.isSignificant)))
  /-- A text block is open at the end. -/
  | textBlock (front : List Lexeme) (x : List Char)
      (hcarry : carryBehind none cs = some .textBlock)
      (hbare : Lexeme.ofText cs = front ++ [⟨.unterminatedTextBlock, x⟩])
      (hended : Lexeme.ofText (cs ++ terminator) =
        front ++ [⟨.unterminatedTextBlock, x ++ terminator⟩])

/-- **A terminator changes the last lexeme at most.** -/
theorem ending (h : terminator ∈ terminators) (cs : List Char) : Ending cs terminator.toList := by
  have hblank := (Text.of_mem_terminators h).2.1
  cases junction_none (Text.lineBorder_of_mem_terminators h cs) with
  | apart hcarry hended =>
    rw [resume_none, resume_none, resume_none, hblank] at hended
    refine .trivia (Lexeme.ofText cs) [] [⟨.blank, terminator.toList⟩] ?_
      (List.append_nil _).symm hended ?_ .nil
    · rw [hcarry]
      exact (Option.some_ne_none _).symm
    · exact List.forall_mem_singleton.mpr (Lexeme.triviaInLine_blank _)
  | blank before x y after hcarry hbare hterminator hended =>
    rw [resume_none, hblank] at hterminator
    obtain ⟨hy, rfl⟩ := List.cons.inj hterminator
    refine .trivia before [⟨.blank, x⟩] [⟨.blank, x ++ y⟩] ?_ hbare hended ?_ .nil
    · rw [hcarry]
      exact (Option.some_ne_none _).symm
    · rw [List.forall_mem_append, List.forall_mem_singleton, List.forall_mem_singleton]
      exact ⟨Lexeme.triviaInLine_blank _, Lexeme.triviaInLine_blank _⟩
  | construct construct before x hcarry hx hbare hended =>
    have hend := construct.end?_of_mem_terminators h
    have hstays := staysOpen_some_iff.mpr hend
    rw [(Construct.shapeIn_of_end?_eq_none hend).1, carriedPart_of_staysOpen hstays,
      rest_of_staysOpen hstays, Lexeme.ofText_nil] at hended
    by_cases hblock : construct = .textBlock
    · subst hblock
      exact .textBlock before x hcarry hbare hended
    · have hopen : ∀ {cs : List Char} {y : List Char}, carryBehind none cs = some construct →
          resume none cs = before ++ [⟨construct.openShape, y⟩] →
          Lexeme.TriviaInLine ⟨construct.openShape, y⟩ := fun hcarry hcs =>
        Lexeme.triviaInLine_of_ofLexeme? (ofLexeme?_of_carryBehind hcarry hcs) hblock
      have hcarry' := (carryBehind_append_terminator h none cs).trans hcarry
      refine .trivia before _ _ ?_ hbare hended ?_ ?_
      · rw [hcarry, Ne, Option.some.injEq]
        exact hblock
      · rw [List.forall_mem_append, List.forall_mem_singleton, List.forall_mem_singleton]
        exact ⟨hopen hcarry hbare, hopen hcarry' hended⟩
      · have hlooks : Lexeme.LooksLike ⟨construct.openShape, x ++ terminator.toList⟩
            ⟨construct.openShape, x⟩ := by
          refine ⟨rfl, fun hword => ?_⟩
          cases construct <;> cases hword
        have hsignificant : ∀ y, Lexeme.isSignificant ⟨construct.openShape, y⟩ = true := by
          intro y
          cases construct <;> rfl
        rw [List.filter_cons_of_pos (hsignificant _), List.filter_cons_of_pos (hsignificant _)]
        exact .cons hlooks .nil

end Line

end JavaHighlight
