import JavaHighlight.Proofs.LineStarts.Code

/-!
# Starts of lines, line by line

Code that a source starts on a line is code of the line, and the other way round: what goes on
with an open construct does not start there (`Line.codeStarts_append`). Each line by itself marks
its first code, and so does the source as a whole (`Line.markedStarts_tokenizeFrom`). So tokenizing
line by line marks the same places (`lineStart_marks_first_on_line`).
-/

namespace JavaHighlight

open Text (LineBorder Lined)

/-! ## Code at the border of lines -/

theorem Construct.isCode_shapeIn (construct : Construct) (cs : List Char) :
    (construct.shapeIn cs).isCode = construct.openShape.isCode := by
  unfold shapeIn
  split <;> cases construct <;> rfl

namespace Line

variable {carry : Option Construct} {u v : List Char}

def codeStarts (carry : Option Construct) (start : Nat) (cs : List Char) : List Nat :=
  Lexeme.codeStarts (start + Text.byteSize (carriedPart carry cs)) (Lexeme.ofText (rest carry cs))

theorem codeStarts_none (start : Nat) (cs : List Char) :
    codeStarts none start cs = Lexeme.codeStarts start (Lexeme.ofText cs) := rfl

theorem codeStarts_none_append (h : LineBorder u v) (start : Nat) :
    codeStarts none start (u ++ v) =
      codeStarts none start u ++ codeStarts (carryBehind none u) (start + Text.byteSize u) v := by
  rw [codeStarts_none, codeStarts_none, ← resume_none (u ++ v), ← resume_none u]
  cases junction_none h with
  | apart hcarry hresume =>
    rw [hresume, hcarry, Lexeme.codeStarts_append, totalLength_resume]
    rfl
  | blank before x y after hcarry hu hv hresume =>
    obtain ⟨-, hsize, hlength⟩ := byteSize_of_cut hu hresume
    rw [resume_none] at hv
    rw [hresume, hu, hcarry, codeStarts_none, hv, Lexeme.codeStarts_append,
      Lexeme.codeStarts_append]
    show _ ++ Lexeme.codeStarts (start + Lexeme.totalLength before + Lexeme.length ⟨.blank, x ++ y⟩)
      after = (_ ++ []) ++ Lexeme.codeStarts (start + Text.byteSize u + Text.byteSize y) after
    rw [hlength, hsize, List.append_nil, Nat.add_assoc, Nat.add_assoc, Nat.add_assoc]
  | construct construct before x hcarry hx hu hresume =>
    obtain ⟨-, hsize, hlength⟩ := byteSize_of_cut hu hresume
    rw [hresume, hu, hcarry, Lexeme.codeStarts_append, Lexeme.codeStarts_append,
      Lexeme.codeStarts_cons, Lexeme.codeStarts_cons, hlength, construct.isCode_shapeIn,
      codeStarts, hsize, Lexeme.codeStarts, List.append_nil, List.append_assoc, Nat.add_assoc,
      Nat.add_assoc, Nat.add_assoc]

/-- **Code starts on one line.** The code of a text that is cut at the end of a line is the code
of both parts, if the second part goes on with what is open. -/
theorem codeStarts_append (h : LineBorder u v) (start : Nat) :
    codeStarts carry start (u ++ v) =
      codeStarts carry start u ++ codeStarts (carryBehind carry u) (start + Text.byteSize u) v := by
  cases hstays : staysOpen carry u with
  | true =>
    obtain ⟨-, hpart, hrest⟩ := append_of_staysOpen h hstays
    have hcarry : carryBehind carry u = carry := if_pos hstays
    have hnone : codeStarts carry start u = [] := by
      rw [codeStarts, rest_of_staysOpen hstays]
      rfl
    rw [hnone, hcarry, codeStarts, codeStarts, hpart, hrest, Text.byteSize_append, Nat.add_assoc]
    rfl
  | false =>
    obtain ⟨-, hpart, hrest⟩ := append_of_not_staysOpen h hstays
    have hcarry : carryBehind carry u = carryBehind none (rest carry u) :=
      if_neg (Bool.eq_false_iff.mp hstays)
    have hborder : LineBorder (rest carry u) v := h.of_suffix (List.drop_suffix _ u)
    have happend := codeStarts_none_append hborder (start + Text.byteSize (carriedPart carry u))
    rw [Nat.add_assoc, byteSize_parts, ← hcarry, codeStarts_none, codeStarts_none] at happend
    rw [codeStarts, hpart, hrest]
    exact happend

/-! ## The marks of lines -/

theorem line_of_mem_codeStarts {cs line : List Char} {earlier later : List (List Char)}
    (hcs : Text.lines cs = earlier ++ line :: later) {o : Nat}
    (ho : o ∈ codeStarts carry (Text.byteSize earlier.flatten) line) :
    (LineIndex.ofText cs).line o = earlier.length + 1 := by
  obtain ⟨occurrence, hmem, rfl⟩ := Lexeme.exists_of_mem_codeStarts ho
  have hpos : ∀ l ∈ Lexeme.ofText (rest carry line), 0 < l.length :=
    fun l hl => Lexeme.length_pos_of_mem_ofText hl
  obtain ⟨hle, hlt⟩ := Occurrence.start_of_mem_ofLexemes hpos hmem
  have hsize := byteSize_parts carry line
  rw [Lexeme.totalLength_ofText] at hlt
  obtain ⟨k, hk⟩ := Nat.exists_eq_add_of_le
    (show Text.byteSize earlier.flatten ≤ occurrence.start by omega)
  rw [LineIndex.line, hk, LineIndex.position_of_line hcs (by omega)]

theorem codeStarts_add (start : Nat) (cs : List Char) :
    codeStarts carry start cs = (codeStarts carry 0 cs).map (· + start) := by
  rw [codeStarts, codeStarts, ← Lexeme.codeStarts_add, Nat.zero_add, Nat.add_comm]

theorem markedStarts_carriedTokens (carry : Option Construct) (cs : List Char) :
    Token.markedStarts (carriedTokens carry cs) = [] := by
  cases carry with
  | none => rfl
  | some construct =>
    show Token.markedStarts (continuation construct _) = []
    unfold continuation
    split <;> rfl

theorem markedStarts_lift (start number : Nat) (ts : List Token) :
    Token.markedStarts (ts.map (lift start number)) = (Token.markedStarts ts).map (· + start) := by
  unfold Token.markedStarts
  rw [List.filter_map, List.map_map, List.map_map]
  rfl

/-- **Each line marks its first code**, wherever it stands in a source. -/
theorem markedStarts_tokenizeLine {line : List Char} {later : List (List Char)}
    (hline : Text.lines line = line :: later) (state : LineState) (start number : Nat) :
    Token.markedStarts ((tokenizeLine (String.ofList line) state).tokens.map
        (lift start number)) = (codeStarts state.carry start line).take 1 := by
  have hline' : Text.lines line = [] ++ line :: later := hline
  have hrun := Progress.markedStarts_ofText (carriedPart state.carry line)
    (rest state.carry line) .line ⟨contextOfRest state line, 0⟩
  rw [carriedPart_append_rest] at hrun
  have hfirst : (LineIndex.ofText line).firstOnLines 0 (codeStarts state.carry 0 line) =
      (codeStarts state.carry 0 line).take 1 :=
    LineIndex.firstOnLines_of_ne (fun _ ho => line_of_mem_codeStarts hline' ho) Nat.one_ne_zero
  rw [codeStarts, Nat.zero_add] at hfirst
  rw [markedStarts_lift, tokenizeLine_eq, String.toList_ofList, Token.markedStarts_append,
    markedStarts_carriedTokens, codeStarts_add, codeStarts, Nat.zero_add, ← List.map_take,
    ← hfirst, ← hrun]
  rfl

/-- **Consecutive lines** mark the first code of each line of the source. -/
theorem markedStarts_tokenizeFrom {cs : List Char} {lines : List (List Char)} (h : Lined lines)
    {earlier : List (List Char)} (hcs : Text.lines cs = earlier ++ lines)
    (state : LineState) (last : Nat) (hlast : last < earlier.length + 1) :
    let start := Text.byteSize earlier.flatten
    Token.markedStarts (tokenizeFrom start (earlier.length + 1) state lines).1.tokens =
      (LineIndex.ofText cs).firstOnLines last (codeStarts state.carry start lines.flatten) := by
  induction h generalizing earlier state last with
  | @last l hl =>
    intro start
    have hmarked := markedStarts_tokenizeLine (Text.lines_of_unterminated hl) state start
      (earlier.length + 1)
    rw [tokenizeFrom, tokenizeFrom, Emission.tokens_append, Emission.tokens_empty,
      List.append_nil, List.flatten_singleton]
    rw [LineIndex.firstOnLines_of_ne (fun _ ho => line_of_mem_codeStarts hcs ho)
      (Nat.ne_of_gt hlast)]
    exact hmarked
  | @cons l lines hl hlines ih =>
    intro start
    have hmarked := markedStarts_tokenizeLine hl.lines_eq state start (earlier.length + 1)
    have hcs' : Text.lines cs = (earlier ++ [l]) ++ lines := by
      rw [hcs, List.append_assoc]
      rfl
    have hrest := ih hcs' (tokenizeLine (String.ofList l) state).state
      (if codeStarts state.carry start l = [] then last else earlier.length + 1)
      (by rw [List.length_append, List.length_singleton]; split <;> omega)
    rw [List.flatten_append, List.flatten_singleton, Text.byteSize_append, List.length_append,
      List.length_singleton, carry_tokenizeLine] at hrest
    rw [tokenizeFrom, Emission.tokens_append, Token.markedStarts_append, List.flatten_cons,
      codeStarts_append (hl.endsLine.lineBorder _),
      LineIndex.firstOnLines_append_of_ne (fun _ ho => line_of_mem_codeStarts hcs ho)
        (Nat.ne_of_gt hlast), ← hrest, ← hmarked]

end Line

/-- **Line starts are the first tokens of lines.** A token is marked just if it is not trivia and
no token in front of it that is not trivia starts on its line. A token that starts inside a lexeme
is not marked: neither a later piece of a run of angle brackets nor, line by line, what goes on
with a text block. Line by line, the same places are marked. -/
theorem lineStart_marks_first_on_line (source : String) :
    (∀ offset earlier token later,
      (tokenizeFrom source offset).tokens = earlier ++ token :: later →
      (token.flags.lineStart = true ↔ token.isTrivia = false ∧
        ∀ t ∈ earlier, t.isTrivia = false →
          (LineIndex.ofText source.toList).line t.span.start ≠
            (LineIndex.ofText source.toList).line token.span.start)) ∧
    (∀ offset,
      let start := Text.floorBoundary offset source.toList
      ∀ o ∈ Occurrence.ofLexemes start (Lexeme.ofTextFrom start source.toList),
        ∀ token ∈ (tokenizeFrom source offset).tokens,
          o.start < token.span.start → token.span.start < o.stop →
            token.flags.lineStart = false) ∧
    ((tokenizeByLine source).tokens.filter (·.flags.lineStart)).map (·.span.start) =
      ((tokenize source).tokens.filter (·.flags.lineStart)).map (·.span.start) ∧
    ∀ o ∈ Occurrence.ofLexemes 0 (Lexeme.ofText source.toList),
      ∀ token ∈ (tokenizeByLine source).tokens,
        o.start < token.span.start → token.span.start < o.stop →
          token.flags.lineStart = false := by
  have hwhole : Token.markedStarts (tokenize source).tokens =
      (LineIndex.ofText source.toList).firstOnLines 0
        (Lexeme.codeStarts 0 (Lexeme.ofText source.toList)) := by
    have hmarked := markedStarts_tokenizeFrom source 0
    have hfloor : Text.floorBoundary 0 source.toList = 0 :=
      Nat.le_zero.mp (Text.floorBoundary_le 0 _)
    have hall : Lexeme.ofTextFrom 0 source.toList = Lexeme.ofText source.toList :=
      Lexeme.ofTextFrom_append [] source.toList
    dsimp only at hmarked
    rw [hfloor, hall] at hmarked
    exact hmarked
  have hlines : Token.markedStarts (tokenizeByLine source).tokens =
      (LineIndex.ofText source.toList).firstOnLines 0
        (Lexeme.codeStarts 0 (Lexeme.ofText source.toList)) := by
    have hnil : Text.lines source.toList = [] ++ Text.lines source.toList := rfl
    have hmarked := Line.markedStarts_tokenizeFrom (Text.lined_lines source.toList) hnil
      .initial 0 Nat.one_pos
    rw [Text.flatten_lines] at hmarked
    exact hmarked
  refine ⟨fun offset earlier token later htokens => ?_, fun offset => ?_,
    hlines.trans hwhole.symm, fun o ho token htoken => ?_⟩
  · exact TokenStream.lineStart_drain_openAt htokens
  · intro start o ho token htoken
    refine Token.lineStart_of_inside ?_ ho htoken
    rw [markedStarts_tokenizeFrom]
    exact (LineIndex.firstOnLines_sublist _ _ _).subset
  · refine Token.lineStart_of_inside ?_ ho htoken
    rw [hlines]
    exact (LineIndex.firstOnLines_sublist _ _ _).subset

/-- What goes on with the text block is the first on its line, but the mark is behind it. -/
example : Token.markedStarts (tokenizeByLine "a\n\"\"\"\nb\"\"\" >> c").tokens = [0, 2, 11] := by
  decide +kernel

end JavaHighlight
