import JavaHighlight.Proofs.Lines.Resumed
import JavaHighlight.Proofs.Literals.TextBlocks
import JavaHighlight.Proofs.Words
import Mathlib.Data.List.TakeWhile

/-!
# The end of a text block, found twice

A line that goes on with a text block is searched for its end byte by byte, and a reader that
comes upon a text block looks for its end from quote to quote. Both find the same
(`Reader.textBlock_ends_alike`), and so does who searches one line at a time.

They differ in what a backslash takes in. The search takes in one byte, whatever it is; the bytes
of a character behind its first end nothing. The reader takes in a character, but no line
terminator; and a terminator ends nothing either.
-/

namespace JavaHighlight

open Text (EndsLine LineBorder isLineEnd)

theorem TextBlock.ascii_delimiter : ∀ c ∈ delimiter, c.toNat < 128 := by
  intro c hc
  obtain rfl : c = '"' := by simpa [delimiter] using hc
  decide

/-! ## Searching bytes -/

namespace Construct

open Reader (isByte)

/-- Where a construct that is open at the start of a text ends in it, in bytes. -/
def endOffset? (construct : Construct) (text : String) : Option Nat :=
  (construct.end? text.toList).map fun n => Text.byteSize (text.toList.take n)

theorem map_byteSize_append (a b : List Char) (end? : Option Nat) :
    ((end?.map (· + a.length)).map fun n => Text.byteSize ((a ++ b).take n)) =
      (end?.map fun n => Text.byteSize (b.take n)).map (· + Text.byteSize a) := by
  rw [Option.map_map, Option.map_map]
  refine congrArg (Option.map · _) (funext fun n => ?_)
  show Text.byteSize ((a ++ b).take (n + a.length)) = Text.byteSize (b.take n) + Text.byteSize a
  rw [Nat.add_comm n, List.take_length_add_append, Text.byteSize_append, Nat.add_comm]

/-- A construct that does not end on the first lines of a text ends where it ends on the others. -/
theorem endOffset?_append (construct : Construct) {u v : String}
    (h : LineBorder u.toList v.toList) (hu : construct.endOffset? u = none) :
    construct.endOffset? (u ++ v) = (construct.endOffset? v).map (· + u.utf8ByteSize) := by
  unfold endOffset? at hu ⊢
  rw [Option.map_eq_none_iff] at hu
  rw [String.toList_append, end?_append construct h, hu, Option.none_or, map_byteSize_append,
    Text.byteSize_toList]

/-- Search bytes for the end of a text block. A backslash takes in the byte behind it. -/
def textBlockEndByte? : List UInt8 → Option Nat
  | [] => none
  | byte :: rest =>
    if isByte '\\' byte then (textBlockEndByte? rest.tail).map (· + 2)
    else if (Text.bytes TextBlock.delimiter).isPrefixOf (byte :: rest) then some 3
    else (textBlockEndByte? rest).map (· + 1)
termination_by bytes => bytes.length
decreasing_by
  · rw [List.length_tail, List.length_cons]
    omega
  · exact Nat.lt_succ_self _

theorem textBlockEndByte?_append {w : List UInt8}
    (h : ∀ byte ∈ w, isByte '\\' byte = false ∧ isByte '"' byte = false) (rest : List UInt8) :
    textBlockEndByte? (w ++ rest) = (textBlockEndByte? rest).map (· + w.length) := by
  induction w with
  | nil => simp
  | cons byte w ih =>
    rw [List.forall_mem_cons] at h
    have hquote : ¬(Text.bytes TextBlock.delimiter).isPrefixOf (byte :: (w ++ rest)) = true := by
      rw [List.isPrefixOf_iff_prefix]
      intro hprefix
      obtain ⟨rfl, -⟩ := List.cons_prefix_cons.mp hprefix
      exact absurd h.1.2 (by decide)
    rw [List.cons_append, textBlockEndByte?, if_neg (Bool.eq_false_iff.mp h.1.1), if_neg hquote,
      ih h.2, Option.map_map]
    rfl

theorem not_isByte_of_beyondAscii {c : Char} (hc : 128 ≤ c.toNat) :
    ∀ byte ∈ String.utf8EncodeChar c, isByte '\\' byte = false ∧ isByte '"' byte = false := by
  intro byte hbyte
  have hhigh := Text.le_of_mem_encode hc byte hbyte
  unfold isByte
  rw [decide_eq_false_iff_not, decide_eq_false_iff_not]
  exact ⟨fun h => absurd (h ▸ hhigh) (by decide), fun h => absurd (h ▸ hhigh) (by decide)⟩

theorem textBlockEndByte?_escape (c : Char) (cs : List Char) :
    textBlockEndByte? (Text.bytes ('\\' :: c :: cs)) =
      (textBlockEndByte? (Text.bytes cs)).map (· + Text.byteSize ['\\', c]) := by
  obtain ⟨first, others, hencode, -⟩ := Reader.charWidth_encode c
  -- Whatever byte comes first, those behind it belong to a character beyond ASCII.
  have hothers : ∀ byte ∈ others, isByte '\\' byte = false ∧ isByte '"' byte = false := by
    intro byte hbyte
    by_cases hc : c.toNat < 128
    · rw [Text.encode_of_ascii hc] at hencode
      obtain ⟨-, rfl⟩ := List.cons.inj hencode
      cases hbyte
    · exact not_isByte_of_beyondAscii (Nat.le_of_not_lt hc) byte
        (hencode ▸ List.mem_cons_of_mem first hbyte)
  have hsize : Text.byteSize ['\\', c] = others.length + 2 := by
    rw [← Text.length_bytes, Text.bytes_cons, Text.bytes_cons, hencode, Text.bytes_nil,
      List.append_nil, Text.encode_of_ascii (by decide)]
    rfl
  have hbytes : Text.bytes ('\\' :: c :: cs) =
      UInt8.ofNat '\\'.toNat :: first :: (others ++ Text.bytes cs) := by
    rw [Text.bytes_cons, Text.bytes_cons, hencode]
    rfl
  rw [hbytes, textBlockEndByte?, if_pos (by decide), List.tail_cons,
    textBlockEndByte?_append hothers, Option.map_map, hsize]
  rfl

/-- The search of bytes goes over a character that is neither a backslash nor the first of three
quotes. -/
theorem textBlockEndByte?_cons {c : Char} {cs : List Char} (hc : c ≠ '\\')
    (hquotes : ¬TextBlock.delimiter <+: c :: cs) :
    textBlockEndByte? (Text.bytes (c :: cs)) =
      (textBlockEndByte? (Text.bytes cs)).map (· + Text.byteSize [c]) := by
  by_cases hquote : c = '"'
  · subst hquote
    have hnone : ¬(Text.bytes TextBlock.delimiter).isPrefixOf (Text.bytes ('"' :: cs)) = true := by
      rw [List.isPrefixOf_iff_prefix, Text.bytes_prefix_iff TextBlock.ascii_delimiter]
      exact hquotes
    rw [Text.bytes_cons, Text.encode_of_ascii (by decide), List.singleton_append] at hnone ⊢
    rw [textBlockEndByte?, if_neg (by decide), if_neg hnone]
    rfl
  · have hplain : ∀ byte ∈ String.utf8EncodeChar c,
        isByte '\\' byte = false ∧ isByte '"' byte = false := by
      intro byte hbyte
      rw [Bool.eq_false_iff, Bool.eq_false_iff, Ne, Ne,
        Reader.isByte_iff_of_mem_encode (by decide) hbyte,
        Reader.isByte_iff_of_mem_encode (by decide) hbyte]
      exact ⟨hc, hquote⟩
    rw [Text.bytes_cons, textBlockEndByte?_append hplain, String.length_utf8EncodeChar]
    rfl

/-- The search of bytes finds where a text block ends. -/
theorem textBlockEndByte?_bytes (cs : List Char) :
    textBlockEndByte? (Text.bytes cs) =
      (textBlockEnd? cs).map fun n => Text.byteSize (cs.take n) := by
  fun_induction textBlockEnd? cs with
  | case1 => rw [Text.bytes_nil, textBlockEndByte?]; rfl
  | case2 c cs ih =>
    rw [textBlockEndByte?_escape, ih]
    exact (map_byteSize_append ['\\', c] cs _).symm
  | case3 cs =>
    have hprefix : (Text.bytes TextBlock.delimiter).isPrefixOf
        (Text.bytes ('"' :: '"' :: '"' :: cs)) = true := by
      rw [List.isPrefixOf_iff_prefix, Text.bytes_prefix_iff TextBlock.ascii_delimiter]
      exact ⟨cs, rfl⟩
    rw [Text.bytes_cons, Text.encode_of_ascii (by decide), List.singleton_append] at hprefix ⊢
    rw [textBlockEndByte?, if_neg (by decide), if_pos hprefix]
    rfl
  | case4 c cs hback hquotes ih =>
    by_cases hc : c = '\\'
    · subst hc
      cases cs with
      | nil => decide +kernel
      | cons d ds => exact absurd rfl (hback d ds rfl)
    · have hnone : ¬TextBlock.delimiter <+: c :: cs := by
        rintro ⟨rest, hrest⟩
        obtain ⟨rfl, rfl⟩ := List.cons.inj hrest
        exact hquotes rest rfl rfl
      rw [textBlockEndByte?_cons hc hnone, ih]
      exact (map_byteSize_append [c] cs _).symm

end Construct

/-! ## Reading from quote to quote -/

namespace Literal

/-- The shape of the lexeme whose quotes the given text stands behind, if it is a text block. -/
def blockShape (cs : List Char) : Shape :=
  if (blockContent cs).1 then .textBlock else .unterminatedTextBlock

theorem blockContent_cons {c : Char} {cs : List Char} (hescape : c ≠ '\\')
    (hquotes : ∀ rest, c :: cs ≠ '"' :: '"' :: '"' :: rest) :
    blockContent (c :: cs) = behind 1 (blockContent cs) :=
  blockContent.eq_4 _ _ (fun rest hc hcs => hquotes rest (by rw [hc, hcs]))
    (fun _ _ hc => absurd hc hescape)

/-- A text block goes on over characters that are neither quotes nor backslashes. -/
theorem blockContent_append {plain : List Char} (h : ∀ c ∈ plain, c ≠ '"' ∧ c ≠ '\\')
    (rest : List Char) :
    blockContent (plain ++ rest) = behind plain.length (blockContent rest) := by
  induction plain with
  | nil => exact Prod.ext rfl (Nat.zero_add _).symm
  | cons c plain ih =>
    rw [List.forall_mem_cons] at h
    rw [List.cons_append,
      blockContent_cons h.1.2 fun _ heq => absurd (List.cons.inj heq).1 h.1.1, ih h.2]
    refine Prod.ext rfl ?_
    simp only [snd_behind, List.length_cons]
    omega

end Literal

namespace Reader

open Literal (blockContent blockShape)

variable {r : Reader} {cs : List Char}

/-- Move over a backslash and the character that it takes in, but stay in front of a line
terminator. -/
def skipEscape (r : Reader) : Reader :=
  if (r.advance 1).atEnd || isLineEndByte (r.advance 1).current then r.advance 1
  else (r.advance 1).advanceChar

theorem exists_skipEscape (r : Reader) : ∃ n, 0 < n ∧ r.skipEscape = r.advance n := by
  unfold skipEscape
  split_ifs
  · exact ⟨1, Nat.one_pos, rfl⟩
  · exact ⟨_, Nat.lt_of_lt_of_le Nat.one_pos (Nat.le_add_right _ _), advance_advance r 1 _⟩

/-- A reader that has come to a quote or a backslash has not gone back, nor is it at the end. -/
theorem exists_toTextBlockDelimiter {a : Char} (ha : a ≠ '\x00')
    (h : isByte a r.toTextBlockDelimiter.current = true) :
    ∃ n, r.toTextBlockDelimiter = r.advance n ∧ r.offset + n < r.size := by
  have hne : r.toTextBlockDelimiter.current ≠ 0 := by
    intro hzero
    rw [hzero, isByte, decide_eq_true_eq] at h
    exact ha (Char.toNat_inj.mp h.symm)
  have hlt := offset_lt_of_current hne
  revert hlt
  unfold toTextBlockDelimiter seek
  split
  · exact fun hlt => ⟨_, rfl, hlt⟩
  · exact fun hlt => absurd hlt (Nat.lt_irrefl _)

/-- Read on behind the quotes that start a text block: the shape of the lexeme, and the reader
behind it. -/
def scanTextBlock (r : Reader) : Shape × Reader :=
  if _hescape : isByte '\\' r.toTextBlockDelimiter.current then
    scanTextBlock r.toTextBlockDelimiter.skipEscape
  else if _hquote : isByte '"' r.toTextBlockDelimiter.current then
    if isByte '"' (r.toTextBlockDelimiter.peek 1) && isByte '"' (r.toTextBlockDelimiter.peek 2) then
      (.textBlock, r.toTextBlockDelimiter.advance 3)
    else scanTextBlock (r.toTextBlockDelimiter.advance 1)
  else (.unterminatedTextBlock, r.toTextBlockDelimiter)
termination_by r.size - r.offset
decreasing_by
  · obtain ⟨n, hn, hlt⟩ := exists_toTextBlockDelimiter (by decide) _hescape
    obtain ⟨m, hm, hskip⟩ := exists_skipEscape r.toTextBlockDelimiter
    rw [hskip, hn]
    show r.size - (r.offset + n + m) < r.size - r.offset
    omega
  · obtain ⟨n, hn, hlt⟩ := exists_toTextBlockDelimiter (by decide) _hquote
    rw [hn]
    show r.size - (r.offset + n + 1) < r.size - r.offset
    omega

theorem peek_advance (r : Reader) (m n : Nat) : (r.advance m).peek n = r.peek (m + n) := by
  show (((bytes r.source).drop (r.offset + m))[n]?).getD 0 =
    (((bytes r.source).drop r.offset)[m + n]?).getD 0
  rw [List.getElem?_drop, List.getElem?_drop, Nat.add_assoc]

namespace Faces

theorem size_eq (h : r.Faces cs) : r.size = r.offset + Text.byteSize cs := by
  obtain ⟨front, hsource, hoffset⟩ := h
  rw [size, ← Text.byteSize_toList, hsource, Text.byteSize_append, hoffset]

theorem isByte_current_iff (h : r.Faces cs) {a : Char} (ha : a.toNat < 128) (hne : a ≠ '\x00') :
    isByte a r.current = true ↔ ∃ rest, cs = a :: rest := by
  cases cs with
  | nil =>
    have hzero : r.current = 0 := by
      rw [current, peek, h.remaining_eq]
      rfl
    rw [hzero, isByte, decide_eq_true_eq]
    refine iff_of_false (fun h => hne (Char.toNat_inj.mp h.symm)) ?_
    rintro ⟨rest, hrest⟩
    cases hrest
  | cons c cs =>
    rw [isByte_iff_of_mem_encode ha h.current_mem]
    refine ⟨fun hc => ⟨cs, hc ▸ rfl⟩, ?_⟩
    rintro ⟨rest, hrest⟩
    exact (List.cons.inj hrest).1

theorem startsWith_delimiter_iff (h : r.Faces cs) :
    isByte '"' r.current = true ∧ (isByte '"' (r.peek 1) && isByte '"' (r.peek 2)) = true ↔
      ∃ rest, cs = '"' :: '"' :: '"' :: rest := by
  rw [Bool.and_eq_true]
  constructor
  · rintro ⟨hfirst, hsecond, hthird⟩
    obtain ⟨cs, rfl⟩ := (h.isByte_current_iff (by decide) (by decide)).mp hfirst
    have h1 : (r.advance 1).Faces cs := Faces.advance (a := ['"']) h
    obtain ⟨cs, rfl⟩ := (h1.isByte_current_iff (by decide) (by decide)).mp
      ((peek_advance r 1 0).symm ▸ hsecond)
    have h2 : ((r.advance 1).advance 1).Faces cs := Faces.advance (a := ['"']) h1
    obtain ⟨cs, rfl⟩ := (h2.isByte_current_iff (by decide) (by decide)).mp
      ((peek_advance r 2 0).symm ▸ hthird)
    exact ⟨cs, rfl⟩
  · rintro ⟨cs, rfl⟩
    have h1 : (r.advance 1).Faces _ := Faces.advance (a := ['"']) h
    have h2 : (r.advance 2).Faces _ := Faces.advance (a := ['"', '"']) h
    have hpeek : ∀ n, (r.advance n).current = r.peek n := fun n => peek_advance r n 0
    rw [← hpeek, ← hpeek]
    exact ⟨(h.isByte_current_iff (by decide) (by decide)).mpr ⟨_, rfl⟩,
      (h1.isByte_current_iff (by decide) (by decide)).mpr ⟨_, rfl⟩,
      (h2.isByte_current_iff (by decide) (by decide)).mpr ⟨_, rfl⟩⟩

/-- A search for characters by their bytes goes over the characters in front of the first. -/
theorem seek_eq (h : r.Faces cs) {p : Char → Bool} {q : UInt8 → Bool}
    (hq : ∀ c, ∀ byte ∈ String.utf8EncodeChar c, q byte = p c) :
    r.seek q = r.advance (Text.byteSize (cs.takeWhile (!p ·))) := by
  unfold seek
  rw [h.remaining_eq, Text.findIdx?_bytes hq]
  cases hany : cs.any p with
  | true => rfl
  | false =>
    have hall : cs.takeWhile (!p ·) = cs :=
      List.takeWhile_eq_self_iff.mpr fun c hc => by simp [List.any_eq_false.mp hany c hc]
    rw [hall]
    show ({ r with offset := r.size } : Reader) = _
    rw [h.size_eq]
    rfl

theorem toTextBlockDelimiter_eq (h : r.Faces cs) :
    ∃ plain rest, cs = plain ++ rest ∧ (∀ c ∈ plain, c ≠ '"' ∧ c ≠ '\\') ∧
      (∀ c cs', rest = c :: cs' → c = '"' ∨ c = '\\') ∧
      r.toTextBlockDelimiter = r.advance (Text.byteSize plain) ∧
      r.toTextBlockDelimiter.Faces rest := by
  let matters : Char → Bool := fun c => c = '"' || c = '\\'
  have hcs : cs.takeWhile (!matters ·) ++ cs.dropWhile (!matters ·) = cs :=
    List.takeWhile_append_dropWhile
  have hseek : r.toTextBlockDelimiter =
      r.advance (Text.byteSize (cs.takeWhile (!matters ·))) := by
    refine h.seek_eq fun c byte hbyte => ?_
    rw [Bool.eq_iff_iff, Bool.or_eq_true, isByte_iff_of_mem_encode (by decide) hbyte,
      isByte_iff_of_mem_encode (by decide) hbyte]
    simp [matters]
  refine ⟨_, _, hcs.symm, fun c hc => ?_, fun c cs' hrest => ?_, hseek,
    hseek ▸ Faces.advance (hcs.symm ▸ h)⟩
  · simpa [matters] using List.all_eq_true.mp List.all_takeWhile c hc
  · have hnot := List.head?_dropWhile_not (!matters ·) cs
    rw [hrest] at hnot
    simpa [matters, or_iff_not_imp_left] using hnot

theorem skipEscape_eq (h : r.Faces ('\\' :: cs)) :
    ∃ taken rest, cs = taken ++ rest ∧
      r.skipEscape = r.advance (Text.byteSize ('\\' :: taken)) ∧
      blockContent ('\\' :: cs) = behind ('\\' :: taken).length (blockContent rest) := by
  have hnext : (r.advance 1).Faces cs := Faces.advance (a := ['\\']) h
  cases cs with
  | nil =>
    have hend : (r.advance 1).atEnd = true := decide_eq_true (Nat.le_of_eq hnext.size_eq)
    refine ⟨[], [], rfl, ?_, rfl⟩
    rw [skipEscape, hend, Bool.true_or, if_pos rfl]
    rfl
  | cons c cs =>
    have hend : (r.advance 1).atEnd = false := by
      have hsize := hnext.size_eq
      have hpos := c.utf8Size_pos
      rw [Text.byteSize_cons] at hsize
      exact decide_eq_false (by omega)
    have hline : isLineEndByte (r.advance 1).current = isLineEnd c := by
      have hmem := hnext.current_mem
      rw [Bool.eq_iff_iff, isLineEndByte, isLineEnd, Bool.or_eq_true, Bool.or_eq_true,
        isByte_iff_of_mem_encode (by decide) hmem, isByte_iff_of_mem_encode (by decide) hmem]
      simp
    rw [skipEscape, hend, Bool.false_or, hline, blockContent]
    split_ifs with hc
    · exact ⟨[], c :: cs, rfl, rfl, rfl⟩
    · refine ⟨[c], cs, rfl, ?_, rfl⟩
      rw [hnext.advanceChar_eq, advance_advance]
      rfl

end Faces

/-- The shape and the reader that are found behind the opening quotes of a text block are those
that its measure tells. -/
def FindsBlock (r : Reader) (cs : List Char) (found : Shape × Reader) : Prop :=
  found = (blockShape cs, r.advance (Text.byteSize (cs.take (blockContent cs).2)))

theorem FindsBlock.behind {a rest : List Char} {found : Shape × Reader}
    (hmeasure : blockContent (a ++ rest) = behind a.length (blockContent rest))
    (h : FindsBlock (r.advance (Text.byteSize a)) rest found) : FindsBlock r (a ++ rest) found := by
  have hshape : blockShape (a ++ rest) = blockShape rest := by
    rw [blockShape, hmeasure, fst_behind]
    rfl
  unfold FindsBlock at h ⊢
  rw [h, hshape, hmeasure, snd_behind, List.take_length_add_append, Text.byteSize_append,
    advance_advance]

/-- A reader that goes from quote to quote finds the end of a text block. -/
theorem Faces.findsBlock (h : r.Faces cs) : FindsBlock r cs r.scanTextBlock := by
  -- At each step the reader is behind what is plain, at the end, an escape or a quote.
  fun_induction scanTextBlock r generalizing cs with
  | case1 r hescape ih =>
    obtain ⟨plain, rest, rfl, hplain, -, hs, hrest⟩ := h.toTextBlockDelimiter_eq
    obtain ⟨rest, rfl⟩ := (hrest.isByte_current_iff (by decide) (by decide)).mp hescape
    obtain ⟨taken, rest, rfl, hskip, hmeasure⟩ := hrest.skipEscape_eq
    refine .behind (Literal.blockContent_append hplain _) (hs ▸ ?_)
    refine .behind (a := '\\' :: taken) hmeasure (hskip ▸ ?_)
    exact ih (hskip ▸ Faces.advance (a := '\\' :: taken) hrest)
  | case2 r hescape hquote hquotes =>
    obtain ⟨plain, rest, rfl, hplain, -, hs, hrest⟩ := h.toTextBlockDelimiter_eq
    obtain ⟨rest, rfl⟩ := hrest.startsWith_delimiter_iff.mp ⟨hquote, hquotes⟩
    exact .behind (Literal.blockContent_append hplain _) (hs ▸ rfl)
  | case3 r hescape hquote hquotes ih =>
    obtain ⟨plain, rest, rfl, hplain, -, hs, hrest⟩ := h.toTextBlockDelimiter_eq
    have hone : ∀ cs, rest ≠ '"' :: '"' :: '"' :: cs := fun cs hcs =>
      hquotes (hrest.startsWith_delimiter_iff.mpr ⟨cs, hcs⟩).2
    obtain ⟨rest, rfl⟩ := (hrest.isByte_current_iff (by decide) (by decide)).mp hquote
    have hfound := ih (Faces.advance (a := ['"']) hrest)
    have hmeasure : blockContent (['"'] ++ rest) = behind 1 (blockContent rest) :=
      Literal.blockContent_cons (by decide) hone
    exact .behind (Literal.blockContent_append hplain _) (hs ▸ .behind hmeasure hfound)
  | case4 r hescape hquote =>
    obtain ⟨plain, rest, rfl, hplain, hhead, hs, hrest⟩ := h.toTextBlockDelimiter_eq
    have hend : rest = [] := by
      cases rest with
      | nil => rfl
      | cons c rest =>
        rcases hhead c rest rfl with rfl | rfl
        · exact absurd ((hrest.isByte_current_iff (by decide) (by decide)).mpr ⟨rest, rfl⟩) hquote
        · exact absurd ((hrest.isByte_current_iff (by decide) (by decide)).mpr ⟨rest, rfl⟩) hescape
    subst hend
    exact .behind (Literal.blockContent_append hplain _) (hs ▸ rfl)

theorem lexeme_textBlock (front rest : String) :
    (openAt (front ++ ("\"\"\"" ++ rest)) front.utf8ByteSize).lexeme =
      ⟨blockShape rest.toList,
        TextBlock.delimiter ++ rest.toList.take (blockContent rest.toList).2⟩ := by
  have hsplit : TextBlock.delimiter ++ rest.toList =
      (TextBlock.delimiter ++ rest.toList.take (blockContent rest.toList).2) ++
        rest.toList.drop (blockContent rest.toList).2 := by
    rw [List.append_assoc, List.take_append_drop]
  have hlength : (rest.toList.take (blockContent rest.toList).2).length =
      (blockContent rest.toList).2 :=
    List.length_take_of_le (Literal.blockContent_le _)
  rw [lexeme_openAt_append, String.toList_append]
  show Lexeme.first (TextBlock.delimiter ++ rest.toList) = _
  rw [hsplit]
  apply Lexeme.first_of_measure_eq
  rw [← hsplit, List.length_append, hlength]
  rfl

/-- **A text block ends in the same place for both searches.** A line on which a text block goes
on tells where it ends just as the lexeme does that its opening quotes start there: a search byte
by byte and a reader that goes from quote to quote agree. Where a text block does not end on some
lines, it ends where the search of the lines behind them says. -/
theorem textBlock_ends_alike (front rest : String) :
    Construct.textBlock.endOffset? rest = Construct.textBlockEndByte? (bytes rest) ∧
    (∀ u v, rest = u ++ v → EndsLine u.toList → Construct.textBlock.endOffset? u = none →
      Construct.textBlock.endOffset? rest =
        (Construct.textBlock.endOffset? v).map (· + u.utf8ByteSize)) ∧
    let r := openAt (front ++ ("\"\"\"" ++ rest)) front.utf8ByteSize
    (∀ stop, Construct.textBlock.endOffset? rest = some stop ↔
      r.lexeme.shape = .textBlock ∧ r.lexeme.length = 3 + stop) ∧
    (Construct.textBlock.endOffset? rest = none ↔
      r.lexeme.shape = .unterminatedTextBlock ∧ r.lexeme.length = 3 + rest.utf8ByteSize) ∧
    (r.advance 3).scanTextBlock = (r.lexeme.shape, r.advance r.lexeme.length) := by
  refine ⟨(Construct.textBlockEndByte?_bytes rest.toList).symm, ?_, ?_⟩
  · rintro u v rfl hu hnone
    exact Construct.textBlock.endOffset?_append (hu.lineBorder v.toList) hnone
  intro r
  have hlexeme : r.lexeme = _ := lexeme_textBlock front rest
  have hlength : r.lexeme.length =
      3 + Text.byteSize (rest.toList.take (blockContent rest.toList).2) := by
    have hfirst : r.lexeme.length = Text.byteSize r.lexeme.text := by
      show (openAt _ _).lexeme.length = Text.byteSize (openAt _ _).lexeme.text
      rw [lexeme_openAt_append, Lexeme.length_first]
    rw [hfirst, hlexeme, Text.byteSize_append]
    rfl
  have hbehind : (r.advance 3).Faces rest.toList := by
    have hfaces := faces_openAt_append front ("\"\"\"" ++ rest)
    rw [String.toList_append] at hfaces
    exact hfaces.advance
  refine ⟨fun stop => ?_, ?_, ?_⟩
  · rw [hlength, hlexeme, blockShape, Literal.blockContent_eq]
    show (Construct.textBlockEnd? rest.toList).map _ = some stop ↔ _
    cases Construct.textBlockEnd? rest.toList with
    | some n => simp
    | none => simp
  · rw [hlength, hlexeme, blockShape, Literal.blockContent_eq, ← Text.byteSize_toList]
    show (Construct.textBlockEnd? rest.toList).map _ = none ↔ _
    cases Construct.textBlockEnd? rest.toList with
    | some n => simp
    | none => simp
  · rw [hbehind.findsBlock, advance_advance, ← hlength, hlexeme]

/-- The first of the quotes on the first line is taken in, so the text block ends on the second,
behind a character of two bytes. -/
theorem textBlock_ends_on_second_line :
    Construct.textBlock.endOffset? ("a\\\"\"\"\r\n" ++ "\\é\"\"\";") = some 13 := by
  have hends : EndsLine "a\\\"\"\"\r\n".toList := by
    intro c hc
    obtain rfl : '\n' = c := Option.some.inj hc
    decide
  rw [(textBlock_ends_alike "" ("a\\\"\"\"\r\n" ++ "\\é\"\"\";")).2.1 _ _ rfl hends
    (by decide +kernel)]
  decide +kernel

end Reader

end JavaHighlight
