import JavaHighlight.Lexeme.Extent
import JavaHighlight.Lexeme.Shape
import JavaHighlight.Text.Lines

/-!
# Comments

A line comment ends in front of a line terminator. All other comments end behind the first
`*/`, which is looked for behind the two characters that open them.
-/

namespace JavaHighlight.Comment

/-- The number of characters up to and with the first `*/`, if there is one. -/
def closing? : List Char → Option Nat
  | [] => none
  | '*' :: '/' :: _ => some 2
  | _ :: cs => (closing? cs).map (· + 1)

theorem closing?_le {cs : List Char} {n : Nat} (h : closing? cs = some n) : n ≤ cs.length := by
  fun_induction closing? cs generalizing n with
  | case1 => simp at h
  | case2 cs => simp only [Option.some.injEq] at h; simp only [List.length_cons]; omega
  | case3 c cs _ ih =>
    obtain ⟨m, hm, rfl⟩ := Option.map_eq_some_iff.mp h
    have := ih hm
    simp only [List.length_cons]
    omega

/-- The shape of a closed comment, by what stands behind its `/*`. -/
def closedShape : List Char → Shape
  | '-' :: '\x7b' :: _ => .nativeBlock
  | '*' :: '/' :: _ => .blockComment
  | '*' :: _ => .javadocComment
  | _ => .blockComment

/-- The shape of a comment without a `*/`, by what stands behind its `/*`. -/
def openShape : List Char → Shape
  | '-' :: '\x7b' :: _ => .unterminatedNativeBlock
  | _ => .unterminatedBlockComment

/-- The comment at the start of a text, measured behind its `/*`. -/
def scanBlock (cs : List Char) : Shape × Nat :=
  match closing? cs with
  | some n => (closedShape cs, 2 + n)
  | none => (openShape cs, 2 + cs.length)

/-- The comment at the start of a text, measured behind its `//`. -/
def scanLine (cs : List Char) : Shape × Nat :=
  (.lineComment, 2 + Extent.run (!Text.isLineEnd ·) cs)

end JavaHighlight.Comment
