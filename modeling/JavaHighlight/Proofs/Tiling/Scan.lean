import JavaHighlight.Lexeme.Tiling
import JavaHighlight.Proofs.Lines.Border
import JavaHighlight.Reader

/-!
# Scanning from any offset

The lexemes from a byte offset on are as long as what is left of the text, whether the offset
falls between two characters or into one (`Lexeme.totalLength_ofTextFrom`). So a reader that
takes one lexeme after the other never leaves its text, and finds the end of input just where
the text ends (`Reader.scansWithin_openAt`).
-/

namespace JavaHighlight

namespace Text

theorem byteSize_eq_utf8ByteSize (cs : List Char) :
    byteSize cs = (String.ofList cs).utf8ByteSize := by
  induction cs with
  | nil => rfl
  | cons c cs ih =>
    rw [byteSize_cons, ih, String.ofList_cons, String.utf8ByteSize_append,
      String.utf8ByteSize_singleton]

theorem byteSize_toList (s : String) : byteSize s.toList = s.utf8ByteSize := by
  rw [byteSize_eq_utf8ByteSize, String.ofList_toList]

/-- What is dropped is a front of the text, with all bytes of the character that is cut. -/
theorem exists_append_dropBytes {n : Nat} {cs : List Char} (h : n ≤ byteSize cs) :
    ∃ front, cs = front ++ (dropBytes n cs).2 ∧ byteSize front = n + (dropBytes n cs).1 := by
  fun_induction dropBytes n cs with
  | case1 n =>
    refine ⟨[], rfl, ?_⟩
    rw [byteSize_nil] at h ⊢
    omega
  | case2 c cs => exact ⟨[], rfl, rfl⟩
  | case3 n c cs hle ih =>
    rw [byteSize_cons] at h
    obtain ⟨front, hcs, hsize⟩ := ih (by omega)
    refine ⟨c :: front, congrArg (c :: ·) hcs, ?_⟩
    rw [byteSize_cons]
    omega
  | case4 n c cs hle =>
    refine ⟨[c], rfl, ?_⟩
    rw [byteSize_cons, byteSize_nil]
    dsimp only
    omega

/-- The bytes in front of an offset, the bytes of the character that it cuts and the characters
behind that one make up the text. -/
theorem size_dropBytes {n : Nat} {cs : List Char} (h : n ≤ byteSize cs) :
    n + (dropBytes n cs).1 + byteSize (dropBytes n cs).2 = byteSize cs := by
  obtain ⟨front, hcs, hsize⟩ := exists_append_dropBytes h
  rw [← hsize, ← byteSize_append, ← hcs]

theorem dropBytes_of_le {n : Nat} {cs : List Char} (h : byteSize cs ≤ n) :
    dropBytes n cs = (0, []) := by
  fun_induction dropBytes n cs with
  | case1 => rfl
  | case2 c cs =>
    have := c.utf8Size_pos
    rw [byteSize_cons] at h
    omega
  | case3 n c cs hle ih =>
    rw [byteSize_cons] at h
    exact ih (by omega)
  | case4 n c cs hle =>
    rw [byteSize_cons] at h
    omega

theorem dropBytes_succ {n k : Nat} {cs rest : List Char} (h : dropBytes n cs = (k + 1, rest)) :
    dropBytes (n + 1) cs = (k, rest) := by
  fun_induction dropBytes n cs with
  | case1 => cases h
  | case2 => cases h
  | case3 n c cs hle ih =>
    have hsub : n + 1 + 1 - c.utf8Size = n + 1 - c.utf8Size + 1 := by omega
    rw [dropBytes, if_pos (by omega), hsub]
    exact ih h
  | case4 n c cs hle =>
    obtain ⟨hk, rfl⟩ := Prod.mk.inj h
    rw [dropBytes]
    split
    · have hk0 : k = 0 := by omega
      have hsub : n + 1 + 1 - c.utf8Size = 0 := by omega
      rw [hsub, dropBytes_zero, hk0]
    · have hsub : c.utf8Size - (n + 1 + 1) = k := by omega
      rw [hsub]

theorem dropBytes_add {n : Nat} {cs a b : List Char} (h : dropBytes n cs = (0, a ++ b)) :
    dropBytes (n + byteSize a) cs = (0, b) := by
  fun_induction dropBytes n cs with
  | case1 n =>
    obtain ⟨-, hab⟩ := Prod.mk.inj h
    obtain ⟨rfl, rfl⟩ := List.append_eq_nil_iff.mp hab.symm
    exact dropBytes_of_le (Nat.zero_le _)
  | case2 c cs =>
    obtain ⟨-, hab⟩ := Prod.mk.inj h
    rw [Nat.zero_add, hab, dropBytes_append]
  | case3 n c cs hle ih =>
    obtain ⟨m, hm⟩ : ∃ m, n + 1 + byteSize a = m + 1 := ⟨n + byteSize a, by omega⟩
    have hsub : m + 1 - c.utf8Size = n + 1 - c.utf8Size + byteSize a := by omega
    rw [hm, dropBytes, if_pos (by omega), hsub]
    exact ih h
  | case4 n c cs hle =>
    obtain ⟨hk, -⟩ := Prod.mk.inj h
    omega

end Text

namespace Lexeme

/-- A lexeme behind an offset is a byte of the character that the offset cuts, or a lexeme of
the text behind that character. -/
theorem mem_ofTextFrom {offset : Nat} {cs : List Char} {l : Lexeme}
    (h : l ∈ ofTextFrom offset cs) :
    l = stray ∨ l ∈ ofText (Text.dropBytes offset cs).2 := by
  rcases List.mem_append.mp h with h | h
  · exact .inl (List.eq_of_mem_replicate h)
  · exact .inr h

theorem measure_of_ofTextFrom_eq {offset : Nat} {cs : List Char} {before after : List Lexeme}
    {l : Lexeme} (h : ofTextFrom offset cs = before ++ l :: after) (hne : l.text ≠ []) :
    ∃ rest, measure (l.text ++ rest) = (l.shape, l.text.length) ∧ after = ofText rest := by
  rcases List.append_eq_append_iff.mp h with ⟨as, -, has⟩ | ⟨bs, hstrays, hbs⟩
  · exact measure_of_ofText_eq has
  · cases bs with
    | nil => exact measure_of_ofText_eq (hbs.symm.trans (List.nil_append _).symm)
    | cons b bs =>
      obtain ⟨rfl, -⟩ := List.cons.inj hbs
      have hstray : l = stray := by
        refine List.eq_of_mem_replicate (n := (Text.dropBytes offset cs).1) ?_
        rw [hstrays]
        simp
      exact absurd (congrArg text hstray) hne

theorem ofTextFrom_min (offset : Nat) (cs : List Char) :
    ofTextFrom (min offset (Text.byteSize cs)) cs = ofTextFrom offset cs := by
  by_cases h : offset ≤ Text.byteSize cs
  · rw [Nat.min_eq_left h]
  · have hle : Text.byteSize cs ≤ offset := Nat.le_of_not_le h
    unfold ofTextFrom
    rw [Nat.min_eq_right hle, Text.dropBytes_of_le hle, Text.dropBytes_of_le (Nat.le_refl _)]

theorem ofTextFrom_append (front rest : List Char) :
    ofTextFrom (Text.byteSize front) (front ++ rest) = ofText rest := by
  unfold ofTextFrom
  rw [Text.dropBytes_append]
  rfl

theorem length_pos_of_mem_ofText {cs : List Char} {l : Lexeme} (h : l ∈ ofText cs) :
    0 < l.length := by
  rw [length_eq_byteSize h]
  exact Text.byteSize_pos (text_ne_nil_of_mem_ofText h)

theorem inText_of_mem_ofTextFrom {offset : Nat} {cs : List Char} {l : Lexeme}
    (h : l ∈ ofTextFrom offset cs) : l.InText ∧ 0 < l.length := by
  rcases mem_ofTextFrom h with rfl | h
  · exact ⟨⟨by decide, fun h => absurd rfl h⟩, Nat.one_pos⟩
  · exact ⟨inText_of_mem_ofText h, length_pos_of_mem_ofText h⟩

theorem totalLength_replicate_stray (n : Nat) : totalLength (List.replicate n stray) = n := by
  induction n with
  | zero => rfl
  | succ n ih =>
    rw [List.replicate_succ, totalLength_cons, ih]
    exact Nat.add_comm 1 n

theorem totalLength_ofTextFrom (offset : Nat) (cs : List Char) :
    totalLength (ofTextFrom offset cs) = Text.byteSize cs - offset := by
  show totalLength (List.replicate (Text.dropBytes offset cs).1 stray ++
    ofText (Text.dropBytes offset cs).2) = _
  rw [totalLength_append, totalLength_replicate_stray, totalLength_ofText]
  by_cases h : offset ≤ Text.byteSize cs
  · have := Text.size_dropBytes h
    omega
  · rw [Text.dropBytes_of_le (by omega), Text.byteSize_nil]
    omega

theorem ofTextFrom_of_eq_cons {offset : Nat} {cs : List Char} {l : Lexeme} {ls : List Lexeme}
    (h : ofTextFrom offset cs = l :: ls) : ofTextFrom (offset + l.length) cs = ls := by
  unfold ofTextFrom at h ⊢
  obtain ⟨k, rest, hdrop⟩ : ∃ k rest, Text.dropBytes offset cs = (k, rest) := ⟨_, _, rfl⟩
  rw [hdrop] at h
  dsimp only at h
  cases k with
  | succ k =>
    rw [List.replicate_succ, List.cons_append] at h
    obtain ⟨rfl, rfl⟩ := List.cons.inj h
    have hone : stray.length = 1 := rfl
    rw [hone, Text.dropBytes_succ hdrop]
  | zero =>
    rw [List.replicate_zero, List.nil_append] at h
    cases rest with
    | nil => cases h
    | cons c rest =>
      have hlength : l.length = Text.byteSize l.text :=
        length_eq_byteSize (h ▸ List.mem_cons_self)
      rw [ofText_eq_cons] at h
      obtain ⟨rfl, rfl⟩ := List.cons.inj h
      rw [← List.take_append_drop (measure (c :: rest)).2 (c :: rest)] at hdrop
      rw [hlength, text_first, Text.dropBytes_add hdrop]
      rfl

theorem length_first (cs : List Char) : (first cs).length = Text.byteSize (first cs).text :=
  if_neg (measure_ne_stray cs)

theorem first_of_measure_eq {text rest : List Char} {shape : Shape}
    (h : measure (text ++ rest) = (shape, text.length)) : first (text ++ rest) = ⟨shape, text⟩ := by
  rw [first, h]
  dsimp only
  rw [List.take_left]

theorem first_of_measure_length {text : List Char} {shape : Shape}
    (h : measure text = (shape, text.length)) : first text = ⟨shape, text⟩ := by
  rw [first, h]
  dsimp only
  rw [List.take_length]

end Lexeme

namespace Reader

theorem lexeme_openAt_append (front rest : String) :
    (openAt (front ++ rest) front.utf8ByteSize).lexeme = Lexeme.first rest.toList := by
  have hoffset : min front.utf8ByteSize (front ++ rest).utf8ByteSize =
      Text.byteSize front.toList := by
    rw [Text.byteSize_toList, String.utf8ByteSize_append]
    omega
  rw [lexeme, openAt, hoffset, String.toList_append, Lexeme.ofTextFrom_append]
  cases rest.toList with
  | nil => rfl
  | cons c cs => rw [Lexeme.ofText_eq_cons, List.headD_cons]

/-- A reader between two parts of its source reads the first lexeme of the second part. -/
theorem lexeme_of_eq_append {source front rest : String} {offset : Nat}
    (hsource : source = front ++ rest)
    (hoffset : front.utf8ByteSize = (openAt source offset).offset) :
    (openAt source offset).lexeme = Lexeme.first rest.toList := by
  rw [← lexeme_openAt_append front rest, ← hsource, hoffset]
  show _ = (openAt source (min offset source.utf8ByteSize)).lexeme
  unfold openAt
  rw [Nat.min_assoc, Nat.min_self]

/-- A reader that is not within a character stands between two parts of its source. -/
theorem lexeme_eq_stray_or (source : String) (offset : Nat) :
    let r := openAt source offset
    r.lexeme = .stray ∨ ∃ front rest : String, source = front ++ rest ∧
      front.utf8ByteSize = r.offset ∧ r.lexeme = Lexeme.first rest.toList := by
  intro r
  have hle : r.offset ≤ Text.byteSize source.toList := by
    rw [Text.byteSize_toList]
    exact Nat.min_le_right _ _
  obtain ⟨front, hfront, hsize⟩ := Text.exists_append_dropBytes hle
  cases hcut : (Text.dropBytes r.offset source.toList).1 with
  | succ k =>
    left
    show (List.replicate (Text.dropBytes r.offset source.toList).1 Lexeme.stray ++ _).headD _ = _
    rw [hcut]
    rfl
  | zero =>
    rw [hcut, Nat.add_zero, Text.byteSize_eq_utf8ByteSize] at hsize
    have hsource : source =
        String.ofList front ++ String.ofList (Text.dropBytes r.offset source.toList).2 := by
      rw [← String.ofList_append, ← hfront, String.ofList_toList]
    exact .inr ⟨_, _, hsource, hsize, lexeme_of_eq_append hsource hsize⟩

/-- A reader that takes the next lexeme stays within its text, moves on unless it is at the end,
and is told of the end of input only there. All lexemes from the reader on are the next one and
those from behind it. -/
structure ScansWithin (r : Reader) : Prop where
  within : r.offset + r.lexeme.length ≤ r.size
  endOfInput_iff : r.lexeme.shape = .endOfInput ↔ r.offset = r.size
  moves : r.offset < r.size → 0 < r.lexeme.length
  next : r.offset < r.size →
    r.lexemes.1 = r.lexeme :: (r.advance r.lexeme.length).lexemes.1
  last : r.lexemes.2.offset = r.size

/-- **A reader scans within its text**, wherever it starts. -/
theorem scansWithin_openAt (source : String) (offset : Nat) :
    (openAt source offset).ScansWithin := by
  let r := openAt source offset
  have hle : r.offset ≤ r.size := Nat.min_le_right _ _
  have htotal : Lexeme.totalLength (Lexeme.ofTextFrom r.offset source.toList) =
      r.size - r.offset := by
    rw [Lexeme.totalLength_ofTextFrom, Text.byteSize_toList]
    rfl
  have hlast : r.lexemes.2.offset = r.size := by
    show r.offset + Lexeme.totalLength (Lexeme.ofTextFrom r.offset source.toList) = r.size
    omega
  cases hls : Lexeme.ofTextFrom r.offset source.toList with
  | nil =>
    rw [hls, Lexeme.totalLength_nil] at htotal
    have heq : r.offset = r.size := by omega
    have hlexeme : r.lexeme = ⟨.endOfInput, []⟩ := by
      show (Lexeme.ofTextFrom r.offset source.toList).headD _ = _
      rw [hls]
      rfl
    refine ⟨?_, ?_, fun hlt => ?_, fun hlt => ?_, hlast⟩
    · show r.offset + r.lexeme.length ≤ r.size
      rw [hlexeme]
      exact hle
    · show r.lexeme.shape = _ ↔ r.offset = r.size
      rw [hlexeme]
      exact iff_of_true rfl heq
    · exact absurd heq (Nat.ne_of_lt hlt)
    · exact absurd heq (Nat.ne_of_lt hlt)
  | cons l ls =>
    obtain ⟨hl, hpos⟩ := Lexeme.inText_of_mem_ofTextFrom (hls ▸ List.mem_cons_self)
    rw [hls, Lexeme.totalLength_cons] at htotal
    have hlexeme : r.lexeme = l := by
      show (Lexeme.ofTextFrom r.offset source.toList).headD _ = _
      rw [hls]
      rfl
    refine ⟨?_, ?_, fun _ => ?_, fun _ => ?_, hlast⟩
    · show r.offset + r.lexeme.length ≤ r.size
      rw [hlexeme]
      omega
    · show r.lexeme.shape = _ ↔ r.offset = r.size
      rw [hlexeme]
      exact iff_of_false hl.not_end (by omega)
    · show 0 < r.lexeme.length
      rw [hlexeme]
      exact hpos
    · show Lexeme.ofTextFrom r.offset source.toList =
        r.lexeme :: Lexeme.ofTextFrom (r.offset + r.lexeme.length) source.toList
      rw [hlexeme, Lexeme.ofTextFrom_of_eq_cons hls, hls]

end Reader

end JavaHighlight
