import JavaHighlight.Proofs.Restart.Positions
import JavaHighlight.Proofs.Restart.Relocated
import JavaHighlight.Proofs.Tiling.Lossless

/-!
# Restarting is reading the tail

A source that is tokenized from an offset on gives the tokens and the diagnostics of its tail, which
starts at the last border between two characters that the offset does not fall short of. Only spans
and positions are those in the source (`tokenizeFrom_eq_relocate`).
-/

namespace JavaHighlight

theorem Text.byteSize_le_floorBoundary {n : Nat} {a b : List Char} (h : byteSize a ≤ n) :
    byteSize a ≤ floorBoundary n (a ++ b) := by
  induction a generalizing n with
  | nil => exact Nat.zero_le _
  | cons c a ih =>
    rw [byteSize_cons] at h
    have hrest := ih (n := n - c.utf8Size) (by omega)
    rw [List.cons_append, floorBoundary, if_pos (by omega), byteSize_cons]
    omega

theorem LineIndex.relocates_append (a b : List Char) :
    (ofText (a ++ b)).Relocates (ofText b) (Text.byteSize a) (Text.byteSize b)
      ((ofText (a ++ b)).position (Text.byteSize a)).behind where
  position _ ho := position_append a b (Nat.le_of_lt ho)
  line_eq_iff o ho p hp := by
    rw [position_append a b (Nat.le_of_lt ho), position_append a b (Nat.le_of_lt hp),
      Position.line_behind, Position.line_behind]
    have ho := line_pos b (Nat.le_of_lt ho)
    have hp := line_pos b (Nat.le_of_lt hp)
    omega

theorem Progress.level_initial (a b : List Char) :
    Level (.ofText (a ++ b)) (.ofText b) (Text.byteSize a) (Text.byteSize b) ⟨.initial, 0⟩
      ⟨.initial, 0⟩ where
  context := rfl
  lastLine o ho := by
    have hsize := Text.byteSize_append a b
    have hwhole := LineIndex.line_pos (a ++ b) (o := Text.byteSize a + o) (by omega)
    have hpart := LineIndex.line_pos b (Nat.le_of_lt ho)
    dsimp only
    omega

theorem Occurrence.within_of_mem_ofLexemes {cs : List Char} {o : Occurrence}
    (h : o ∈ ofLexemes 0 (Lexeme.ofText cs)) :
    o.lexeme.InText ∧ 0 < o.lexeme.length ∧ o.stop ≤ Text.byteSize cs := by
  rw [← before_nil] at h
  have hwithin := within_of_mem_before (fun l hl =>
    ⟨Lexeme.inText_of_mem_ofText hl, Lexeme.length_pos_of_mem_ofText hl⟩) h
  rwa [Lexeme.totalLength_ofText, Nat.zero_add] at hwithin

/-- Tokens and diagnostics as they are found `start` bytes further on, where `move` tells the
positions. -/
def Output.relocate (start : Nat) (move : Position → Position) (output : Output) : Output :=
  { output with
    tokens := output.tokens.map (Token.relocate start move)
    diagnostics := output.diagnostics.map (Line.liftDiagnostic start) }

/-- A stream that is opened between two characters reads the tail of its source. -/
theorem TokenStream.drain_openAt_append (front rest : String) :
    let start := front.utf8ByteSize
    let origin := (LineIndex.ofText (front ++ rest).toList).position start
    (openAt (front ++ rest) start false).drain false =
      ((openAt rest 0 false).drain false).relocate start origin.behind := by
  intro start origin
  have hlist : (front ++ rest).toList = front.toList ++ rest.toList := String.toList_append
  have hstart : Text.byteSize front.toList = start := Text.byteSize_toList front
  have hwhole : (openAt (front ++ rest) start false).upcoming =
      Occurrence.ofLexemes start (Lexeme.ofText rest.toList) := by
    rw [upcoming_openAt hlist (by rw [hstart, String.utf8ByteSize_append]; omega), hstart]
  have hpart : (openAt rest 0 false).upcoming =
      Occurrence.ofLexemes 0 (Lexeme.ofText rest.toList) := by
    have hrest : rest.toList = [] ++ rest.toList := rfl
    exact upcoming_openAt hrest (by rw [Nat.zero_min, Text.byteSize_nil]) false
  have hrelocated := Occurrence.relocated_before .nil start 0 (Lexeme.ofText rest.toList)
  rw [Occurrence.before_nil, Occurrence.before_nil, Nat.add_zero] at hrelocated
  have hindex := LineIndex.relocates_append front.toList rest.toList
  have hlevel := Progress.level_initial front.toList rest.toList
  rw [← hlist, hstart] at hindex hlevel
  obtain ⟨hemission, hlast⟩ := Progress.run_relocate hindex hlevel .whole hrelocated
    fun _ ho => Occurrence.within_of_mem_ofLexemes ho
  rw [← hwhole, ← hpart] at hemission hlast
  have hcontext : (openAt (front ++ rest) start false).lastContext =
      (openAt rest 0 false).lastContext := hlast.context
  have hsize : (LineIndex.ofText (front ++ rest).toList).size =
      (LineIndex.ofText rest.toList).size + start := by
    show Text.byteSize (front ++ rest).toList = Text.byteSize rest.toList + start
    rw [hlist, Text.byteSize_append, hstart, Nat.add_comm]
  rw [drain_openAt, drain_openAt, hcontext]
  show Output.mk _ _ false = Output.mk _ _ false
  rw [List.map_append, List.map_map]
  refine congrArg₂ (Output.mk · · false) (congrArg Emission.tokens hemission) ?_
  refine congrArg₂ (· ++ ·) (congrArg Emission.diagnostics hemission) (List.map_congr_left ?_)
  intro issue _
  show Diagnostic.mk (.point (LineIndex.ofText (front ++ rest).toList).size) _ = _
  rw [hsize]
  rfl

/-- **Restarting is tokenizing the tail.** The tail starts at the last border between two
characters up to the offset; in front of it, nothing is looked at but where lines start. -/
theorem tokenizeFrom_eq_relocate (source : String) (offset : Nat) :
    ∃ front rest : String, source = front ++ rest ∧ front.utf8ByteSize ≤ offset ∧
      (∀ front' rest' : String, source = front' ++ rest' → front'.utf8ByteSize ≤ offset →
        front'.utf8ByteSize ≤ front.utf8ByteSize) ∧
      let origin := (LineIndex.ofText source.toList).position front.utf8ByteSize
      tokenizeFrom source offset =
        (tokenize rest).relocate front.utf8ByteSize origin.behind := by
  obtain ⟨a, b, hab, hfloor⟩ := Text.exists_byteSize_eq_floorBoundary offset source.toList
  have hsource : source = String.ofList a ++ String.ofList b := by
    rw [← String.ofList_append, ← hab, String.ofList_toList]
  have hsize : (String.ofList a).utf8ByteSize = Text.floorBoundary offset source.toList := by
    rw [← Text.byteSize_eq_utf8ByteSize, hfloor]
  refine ⟨.ofList a, .ofList b, hsource, ?_, ?_, ?_⟩
  · rw [hsize]
    exact Text.floorBoundary_le _ _
  · intro front' rest' hsource' hle
    rw [hsize, hsource', String.toList_append, ← Text.byteSize_toList]
    rw [← Text.byteSize_toList] at hle
    exact Text.byteSize_le_floorBoundary hle
  · intro origin
    have hdrain := TokenStream.drain_openAt_append (.ofList a) (.ofList b)
    rw [← hsource] at hdrain
    rw [tokenize_eq_drain, tokenizeFrom, ← hsize]
    exact hdrain

end JavaHighlight
