import JavaHighlight.Proofs.Bytes
import JavaHighlight.Proofs.Names.Words
import JavaHighlight.Proofs.Tiling.Scan

/-!
# Words are maximal

A word is the longest run of letters, digits, underscores and dollar signs where a character
stands that can start one (`Reader.read_word`).

A reader that goes byte by byte finds the same word: it moves over bytes of ASCII at once and
takes each character beyond ASCII by its first byte (`Reader.skipWord`). The induction is on what
the reader faces, which falls into a run of ASCII and a character that ends the run.
-/

namespace JavaHighlight

namespace Unicode

def isAlphanumeric (c : Char) : Bool :=
  isAlphabetic c || isNumeric c

end Unicode

namespace Word

/-- Whether a word may start with `c`: a letter of ASCII, an underscore, a dollar sign, or what
counts as a letter beyond ASCII. -/
def starts (alphabetic : Char → Bool) (c : Char) : Bool :=
  c.isAlpha || c = '_' || c = '$' || (Unicode.beyondAscii c && alphabetic c)

/-- Whether a word may go on with `c`: a letter or a digit of ASCII, an underscore, a dollar sign,
or what counts as a letter or a digit beyond ASCII. -/
def goesOn (alphanumeric : Char → Bool) (c : Char) : Bool :=
  isAsciiWordPart c || (Unicode.beyondAscii c && alphanumeric c)

theorem isWordStart_eq (c : Char) : isWordStart c = starts Unicode.isAlphabetic c := by
  unfold isWordStart starts Unicode.isAlphabetic
  cases c.isAlpha <;> cases decide (c = '_') <;> cases decide (c = '$') <;>
    cases Unicode.beyondAscii c <;> simp

theorem isWordPart_eq (c : Char) : isWordPart c = goesOn Unicode.isAlphanumeric c := by
  unfold isWordPart isWordStart goesOn isAsciiWordPart Unicode.isAlphanumeric
    Unicode.isAlphabetic Unicode.isNumeric Char.isAlphanum
  cases c.isAlpha <;> cases decide (c = '_') <;> cases decide (c = '$') <;>
    cases Unicode.beyondAscii c <;> cases c.isDigit <;> simp

theorem ascii_of_isAsciiWordPart {c : Char} (h : isAsciiWordPart c = true) : c.toNat < 128 := by
  have hval : c.val.toNat = c.toNat := rfl
  unfold isAsciiWordPart Char.isAlphanum Char.isAlpha Char.isUpper Char.isLower Char.isDigit at h
  simp only [Bool.or_eq_true, Bool.and_eq_true, decide_eq_true_eq, UInt32.le_iff_toNat_le,
    ge_iff_le] at h
  rcases h with (((⟨-, hle⟩ | ⟨-, hle⟩) | ⟨-, hle⟩) | rfl) | rfl
  · exact Nat.lt_of_le_of_lt (hval ▸ hle) (by decide)
  · exact Nat.lt_of_le_of_lt (hval ▸ hle) (by decide)
  · exact Nat.lt_of_le_of_lt (hval ▸ hle) (by decide)
  · decide
  · decide

theorem goesOn_of_ascii (alphanumeric : Char → Bool) {c : Char} (hc : c.toNat < 128) :
    goesOn alphanumeric c = isAsciiWordPart c := by
  have hbeyond : Unicode.beyondAscii c = false := decide_eq_false (by omega)
  rw [goesOn, hbeyond, Bool.false_and, Bool.or_false]

theorem goesOn_of_beyondAscii (alphanumeric : Char → Bool) {c : Char} (hc : 128 ≤ c.toNat) :
    goesOn alphanumeric c = alphanumeric c := by
  have hbeyond : Unicode.beyondAscii c = true := decide_eq_true hc
  have hpart : isAsciiWordPart c = false :=
    Bool.eq_false_iff.mpr fun h => Nat.not_lt_of_le hc (ascii_of_isAsciiWordPart h)
  rw [goesOn, hbeyond, hpart, Bool.true_and, Bool.false_or]

theorem starts_of_beyondAscii {alphabetic : Char → Bool} {c : Char} (hc : 128 ≤ c.toNat) :
    starts alphabetic c = alphabetic c := by
  have hbeyond : Unicode.beyondAscii c = true := decide_eq_true hc
  have hpart : isAsciiWordPart c = false :=
    Bool.eq_false_iff.mpr fun h => Nat.not_lt_of_le hc (ascii_of_isAsciiWordPart h)
  simp only [isAsciiWordPart, Char.isAlphanum, Bool.or_eq_false_iff] at hpart
  simp only [starts, hpart, hbeyond, Bool.true_and, Bool.false_or]

theorem goesOn_of_starts {alphabetic alphanumeric : Char → Bool}
    (h : ∀ d, alphabetic d = true → alphanumeric d = true) {c : Char}
    (hc : starts alphabetic c = true) : goesOn alphanumeric c = true := by
  simp only [starts, Bool.or_eq_true, Bool.and_eq_true] at hc
  simp only [goesOn, isAsciiWordPart, Char.isAlphanum, Bool.or_eq_true, Bool.and_eq_true]
  rcases hc with ((halpha | hunderscore) | hdollar) | ⟨hbeyond, hletter⟩
  · exact .inl (.inl (.inl (.inl halpha)))
  · exact .inl (.inl (.inr hunderscore))
  · exact .inl (.inr hdollar)
  · exact .inr ⟨hbeyond, h c hletter⟩

end Word

/-- `run` is the longest start of a text that is made of characters that satisfy `p`. -/
structure Text.LongestRun (p : Char → Bool) (cs run : List Char) : Prop where
  starts : run <+: cs
  made : ∀ c ∈ run, p c = true
  longest : ∀ other, other <+: cs → (∀ c ∈ other, p c = true) → other <+: run

theorem Text.longestRun_takeWhile (p : Char → Bool) (cs : List Char) :
    LongestRun p cs (cs.takeWhile p) := by
  refine ⟨List.takeWhile_prefix p, fun c hc => List.all_eq_true.mp List.all_takeWhile c hc, ?_⟩
  rintro other ⟨rest, rfl⟩ hother
  rw [List.takeWhile_append_of_pos hother]
  exact List.prefix_append _ _

theorem Text.length_takeWhile_bytes {p : Char → Bool} (hp : ∀ c, p c = true → c.toNat < 128)
    (cs : List Char) :
    ((bytes cs).takeWhile fun byte => p (Char.ofNat byte.toNat)).length =
      byteSize (cs.takeWhile p) := by
  induction cs with
  | nil => rfl
  | cons c cs ih =>
    by_cases hc : c.toNat < 128
    · have hbyte : Char.ofNat (UInt8.ofNat c.toNat).toNat = c := by
        rw [UInt8.toNat_ofNat_of_lt' (by omega : c.toNat < 256), Char.ofNat_toNat]
      rw [bytes_cons, encode_of_ascii hc, List.singleton_append]
      by_cases hpc : p c = true
      · rw [List.takeWhile_cons_of_pos (by rw [hbyte]; exact hpc), List.takeWhile_cons_of_pos hpc,
          List.length_cons, ih, byteSize_cons, utf8Size_of_ascii hc, Nat.add_comm]
      · rw [List.takeWhile_cons_of_neg (by rw [hbyte]; exact hpc), List.takeWhile_cons_of_neg hpc]
        rfl
    · -- Neither the character nor its first byte is one of ASCII.
      obtain ⟨first, others, hencode, -⟩ := Reader.charWidth_encode c
      have hhigh := le_of_mem_encode (Nat.le_of_not_lt hc) first (hencode ▸ List.mem_cons_self)
      have hfirst : (Char.ofNat first.toNat).toNat = first.toNat := by
        rw [Char.ofNat, dif_pos (.inl (by have := first.toNat_lt; omega))]
        rfl
      rw [bytes_cons, hencode, List.cons_append,
        List.takeWhile_cons_of_neg fun hpos => by have := hp _ hpos; omega,
        List.takeWhile_cons_of_neg fun hpos => hc (hp c hpos)]
      rfl

/-! ## Reading byte by byte -/

namespace Reader

/-- A reader between two characters has the given ones in front of it. -/
def Faces (r : Reader) (cs : List Char) : Prop :=
  ∃ front, r.source.toList = front ++ cs ∧ r.offset = Text.byteSize front

theorem length_bytes (source : String) : (bytes source).length = source.utf8ByteSize :=
  (Text.length_bytes source.toList).trans (Text.byteSize_toList source)

theorem offset_lt_of_current {r : Reader} (h : r.current ≠ 0) : r.offset < r.size := by
  by_contra hend
  refine h ?_
  have hnone : r.remaining[0]? = none := by
    rw [remaining, List.drop_eq_nil_of_le (by rw [length_bytes]; exact Nat.le_of_not_lt hend)]
    rfl
  rw [current, peek, hnone]
  rfl

theorem advance_advance (r : Reader) (m n : Nat) :
    (r.advance m).advance n = r.advance (m + n) := by
  show Reader.mk r.source (r.offset + m + n) = Reader.mk r.source (r.offset + (m + n))
  rw [Nat.add_assoc]

theorem charWidth_pos (byte : UInt8) : 0 < charWidth byte := by
  rw [charWidth_eq]
  split_ifs <;> omega

/-- Move over bytes of ASCII that go on with a word. -/
def skipAsciiWord (r : Reader) : Reader :=
  r.skipWhile fun byte => isAsciiWordPart (Char.ofNat byte.toNat)

/-- Move over what goes on with a word, byte by byte. Bytes of ASCII are taken at once; a
character beyond ASCII is looked at first. -/
def skipWord (alphanumeric : Char → Bool) (r : Reader) : Reader :=
  if _hbeyond : 128 ≤ r.skipAsciiWord.current.toNat then
    match r.skipAsciiWord.currentChar? with
    | some c =>
      if alphanumeric c then skipWord alphanumeric r.skipAsciiWord.advanceChar
      else r.skipAsciiWord
    | none => r.skipAsciiWord
  else r.skipAsciiWord
termination_by r.size - r.offset
decreasing_by
  have hlt : r.skipAsciiWord.offset < r.size :=
    offset_lt_of_current fun hzero => absurd (hzero ▸ _hbeyond) (by decide)
  have hpos := charWidth_pos r.skipAsciiWord.current
  have hle : r.offset ≤ r.skipAsciiWord.offset := Nat.le_add_right _ _
  show r.size - (r.skipAsciiWord.offset + charWidth r.skipAsciiWord.current) < r.size - r.offset
  omega

namespace Faces

variable {r : Reader} {a b cs : List Char} {c : Char}

theorem remaining_eq (h : r.Faces cs) : r.remaining = Text.bytes cs := by
  obtain ⟨front, hsource, hoffset⟩ := h
  show (Text.bytes r.source.toList).drop r.offset = _
  rw [hsource, hoffset, Text.bytes_append, ← Text.length_bytes, List.drop_left]

theorem advance (h : r.Faces (a ++ b)) : (r.advance (Text.byteSize a)).Faces b := by
  obtain ⟨front, hsource, hoffset⟩ := h
  refine ⟨front ++ a, ?_, ?_⟩
  · rw [List.append_assoc]
    exact hsource
  · rw [Text.byteSize_append, ← hoffset]
    rfl

theorem currentChar?_eq (h : r.Faces cs) : r.currentChar? = cs.head? := by
  obtain ⟨front, hsource, hoffset⟩ := h
  rw [currentChar?, hsource, hoffset, Text.dropBytes_append]
  rfl

theorem current_mem (h : r.Faces (c :: cs)) : r.current ∈ String.utf8EncodeChar c := by
  obtain ⟨first, others, hencode, -⟩ := charWidth_encode c
  rw [current, peek, h.remaining_eq, Text.bytes_cons, hencode]
  exact List.mem_cons_self

theorem advanceChar_eq (h : r.Faces (c :: cs)) : r.advanceChar = r.advance c.utf8Size := by
  obtain ⟨first, others, hencode, hwidth⟩ := charWidth_encode c
  have hcurrent : r.current = first := by
    rw [current, peek, h.remaining_eq, Text.bytes_cons, hencode]
    rfl
  rw [advanceChar, hcurrent, hwidth]

theorem advanceChar (h : r.Faces (c :: cs)) : r.advanceChar.Faces cs := by
  have hnext := Faces.advance (a := [c]) h
  rwa [Text.byteSize_cons, Text.byteSize_nil, Nat.add_zero, ← h.advanceChar_eq] at hnext

/-- Moving over bytes of some characters of ASCII is moving over these characters. -/
theorem skipWhile_eq (h : r.Faces cs) {p : Char → Bool} (hp : ∀ c, p c = true → c.toNat < 128) :
    r.skipWhile (fun byte => p (Char.ofNat byte.toNat)) =
      r.advance (Text.byteSize (cs.takeWhile p)) := by
  rw [skipWhile, h.remaining_eq, Text.length_takeWhile_bytes hp]

theorem current_lt_iff (h : r.Faces (c :: cs)) : r.current.toNat < 128 ↔ c.toNat < 128 := by
  have hmem := h.current_mem
  by_cases hc : c.toNat < 128
  · rw [Text.encode_of_ascii hc, List.mem_singleton] at hmem
    rw [hmem, UInt8.toNat_ofNat_of_lt' (by omega : c.toNat < 256)]
  · have hhigh := Text.le_of_mem_encode (Nat.le_of_not_lt hc) _ hmem
    omega

theorem beyond_of_currentChar? (h : r.Faces cs) (hbeyond : 128 ≤ r.current.toNat)
    (hc : r.currentChar? = some c) : ∃ rest, cs = c :: rest ∧ 128 ≤ c.toNat := by
  rw [h.currentChar?_eq] at hc
  obtain ⟨rest, rfl⟩ := List.head?_eq_some_iff.mp hc
  exact ⟨rest, rfl, Nat.le_of_not_lt fun hlt =>
    Nat.not_lt_of_le hbeyond (h.current_lt_iff.mpr hlt)⟩

/-- Behind the run of ASCII that goes on with a word, the rest of the word is still to come. -/
theorem skipAsciiWord_eq (h : r.Faces cs) (alphanumeric : Char → Bool) :
    ∃ ascii rest, r.skipAsciiWord = r.advance (Text.byteSize ascii) ∧
      r.skipAsciiWord.Faces rest ∧ rest.head?.any isAsciiWordPart = false ∧
      cs.takeWhile (Word.goesOn alphanumeric) =
        ascii ++ rest.takeWhile (Word.goesOn alphanumeric) := by
  have hcs : cs.takeWhile isAsciiWordPart ++ cs.dropWhile isAsciiWordPart = cs :=
    List.takeWhile_append_dropWhile
  have hskip : r.skipAsciiWord = r.advance (Text.byteSize (cs.takeWhile isAsciiWordPart)) :=
    h.skipWhile_eq fun c hc => Word.ascii_of_isAsciiWordPart hc
  refine ⟨_, cs.dropWhile isAsciiWordPart, hskip, ?_, ?_, ?_⟩
  · rw [← hcs] at h
    rw [hskip]
    exact h.advance
  · have hnot := List.head?_dropWhile_not isAsciiWordPart cs
    cases hhead : (cs.dropWhile isAsciiWordPart).head? with
    | none => rfl
    | some c =>
      rw [hhead] at hnot
      exact hnot
  · conv_lhs => rw [← hcs]
    refine List.takeWhile_append_of_pos fun c hc => ?_
    rw [Word.goesOn, List.all_eq_true.mp List.all_takeWhile c hc]
    rfl

/-- A word goes on as far as a reader gets that moves over it byte by byte. -/
theorem skipWord_eq (h : r.Faces cs) (alphanumeric : Char → Bool) :
    r.skipWord alphanumeric =
      r.advance (Text.byteSize (cs.takeWhile (Word.goesOn alphanumeric))) := by
  -- What the reader faces behind the run of ASCII decides whether the word goes on.
  fun_induction skipWord alphanumeric r generalizing cs with
  | case1 r hbeyond c hc hletter ih =>
    obtain ⟨ascii, rest, hs, hrest, -, hword⟩ := h.skipAsciiWord_eq alphanumeric
    obtain ⟨rest, rfl, hhigh⟩ := hrest.beyond_of_currentChar? hbeyond hc
    have hgoes : Word.goesOn alphanumeric c = true := by
      rw [Word.goesOn_of_beyondAscii alphanumeric hhigh, hletter]
    rw [ih hrest.advanceChar, hrest.advanceChar_eq, hs, hword, List.takeWhile_cons_of_pos hgoes,
      Text.byteSize_append, Text.byteSize_cons, advance_advance, advance_advance]
  | case2 r hbeyond c hc hletter =>
    obtain ⟨ascii, rest, hs, hrest, -, hword⟩ := h.skipAsciiWord_eq alphanumeric
    obtain ⟨rest, rfl, hhigh⟩ := hrest.beyond_of_currentChar? hbeyond hc
    have hhalts : ¬Word.goesOn alphanumeric c = true := by
      rw [Word.goesOn_of_beyondAscii alphanumeric hhigh]
      exact hletter
    rw [hword, List.takeWhile_cons_of_neg hhalts, List.append_nil, hs]
  | case3 r hbeyond hc =>
    obtain ⟨ascii, rest, hs, hrest, -, hword⟩ := h.skipAsciiWord_eq alphanumeric
    rw [hrest.currentChar?_eq, List.head?_eq_none_iff] at hc
    rw [hword, hc, List.takeWhile_nil, List.append_nil, hs]
  | case4 r hascii =>
    obtain ⟨ascii, rest, hs, hrest, hend, hword⟩ := h.skipAsciiWord_eq alphanumeric
    cases rest with
    | nil => rw [hword, List.takeWhile_nil, List.append_nil, hs]
    | cons c rest =>
      have hlow : c.toNat < 128 := hrest.current_lt_iff.mp (Nat.lt_of_not_le hascii)
      have hhalts : ¬Word.goesOn alphanumeric c = true := by
        rw [Word.goesOn_of_ascii alphanumeric hlow]
        exact Bool.eq_false_iff.mp hend
      rw [hword, List.takeWhile_cons_of_neg hhalts, List.append_nil, hs]

end Faces

/-- What a reader finds byte by byte where a word may start, and where it is then. -/
def scanWord (alphabetic alphanumeric : Char → Bool) (r : Reader) : Shape × Reader :=
  if r.current.toNat < 128 then (.word, (r.advance 1).skipWord alphanumeric)
  else
    match r.currentChar? with
    | some c =>
      if alphabetic c then (.word, r.advanceChar.skipWord alphanumeric)
      else (.unknown, r.advanceChar)
    | none => (.stray, r.advance 1)

namespace Faces

variable {r : Reader} {cs : List Char} {c : Char} {alphabetic alphanumeric : Char → Bool}

theorem scanWord_of_starts (h : r.Faces (c :: cs))
    (hletter : ∀ d, alphabetic d = true → alphanumeric d = true)
    (hstarts : Word.starts alphabetic c = true) :
    r.scanWord alphabetic alphanumeric =
      (.word, r.advance (Text.byteSize ((c :: cs).takeWhile (Word.goesOn alphanumeric)))) := by
  rw [List.takeWhile_cons_of_pos (Word.goesOn_of_starts hletter hstarts), Text.byteSize_cons,
    ← advance_advance, scanWord]
  by_cases hc : c.toNat < 128
  · have hnext := h.advanceChar
    rw [h.advanceChar_eq, Text.utf8Size_of_ascii hc] at hnext
    rw [if_pos (h.current_lt_iff.mpr hc), hnext.skipWord_eq, Text.utf8Size_of_ascii hc]
  · rw [Word.starts_of_beyondAscii (Nat.le_of_not_lt hc)] at hstarts
    rw [if_neg fun hcurrent => hc (h.current_lt_iff.mp hcurrent), h.currentChar?_eq]
    show (if alphabetic c = true then _ else _) = _
    rw [if_pos hstarts, h.advanceChar.skipWord_eq, h.advanceChar_eq]

theorem scanWord_of_not_alphabetic (h : r.Faces (c :: cs)) (hc : 128 ≤ c.toNat)
    (hletter : alphabetic c = false) :
    r.scanWord alphabetic alphanumeric = (.unknown, r.advance c.utf8Size) := by
  rw [scanWord, if_neg fun hcurrent => Nat.not_lt_of_le hc (h.current_lt_iff.mp hcurrent),
    h.currentChar?_eq]
  show (if alphabetic c = true then _ else _) = _
  rw [if_neg (by simp [hletter]), h.advanceChar_eq]

end Faces

theorem faces_openAt_append (front rest : String) :
    (openAt (front ++ rest) front.utf8ByteSize).Faces rest.toList := by
  refine ⟨front.toList, String.toList_append, ?_⟩
  show min front.utf8ByteSize (front ++ rest).utf8ByteSize = _
  rw [Text.byteSize_toList, String.utf8ByteSize_append]
  omega

end Reader

theorem Symbol.longest?_of_beyondAscii {c : Char} (hc : 128 ≤ c.toNat) (cs : List Char) :
    longest? (c :: cs) = none := by
  have key : ∀ s ∈ all, s.spelling.toList.head?.all (·.toNat < 128) = true := by
    decide +kernel
  by_contra hsome
  obtain ⟨s, hs⟩ := Option.ne_none_iff_exists'.mp hsome
  have hlow := key s s.mem_all
  rw [head?_spelling (longest?_eq_some_iff.mp hs).starts] at hlow
  exact Nat.not_lt_of_le hc (of_decide_eq_true hlow)

namespace Lexeme

/-- Where a word may start, the lexeme is the run of what may go on with a word. -/
theorem first_of_isWordStart {c : Char} (hc : isWordStart c = true) (cs : List Char) :
    first (c :: cs) = ⟨.word, (c :: cs).takeWhile isWordPart⟩ := by
  have hsplit : c :: cs = (c :: cs).takeWhile isWordPart ++ (c :: cs).dropWhile isWordPart :=
    List.takeWhile_append_dropWhile.symm
  conv_lhs => rw [hsplit]
  apply first_of_measure_eq
  rw [← hsplit, measure_of_isWordStart hc,
    List.takeWhile_cons_of_pos (isWordPart_of_isWordStart hc), List.length_cons, Nat.add_comm]
  rfl

theorem measure_of_not_letter {c : Char} (hc : 128 ≤ c.toNat) (hletter : isWordStart c = false)
    (cs : List Char) : measure (c :: cs) = (.unknown, 1) := by
  have hne : ∀ d : Char, d.toNat < 128 → c ≠ d := by
    rintro d hd rfl
    omega
  have hblank : isBlank c = false := by
    simp [isBlank, hne ' ' (by decide), hne '\t' (by decide), hne '\x0c' (by decide),
      hne '\n' (by decide), hne '\r' (by decide)]
  have hdigit : c.isDigit = false := by
    rw [Bool.eq_false_iff]
    intro hdigit
    have hpart : isAsciiWordPart c = true := by simp [isAsciiWordPart, Char.isAlphanum, hdigit]
    exact Nat.not_lt_of_le hc (Word.ascii_of_isAsciiWordPart hpart)
  rw [measure_eq_measurePlain (hne _ (by decide)) (hne _ (by decide))
    fun hslash => absurd hslash (hne _ (by decide)), measurePlain, if_neg (by simp [hblank]),
    if_neg (by simp [hletter]), if_neg (by simp [hdigit]),
    if_neg (by simp [hne '.' (by decide)]), Symbol.longest?_of_beyondAscii hc]

end Lexeme

namespace Reader

/-- **Words are maximal.** Where a character stands that may start a word, the lexeme is the
longest run of characters with which a word may go on. A character beyond ASCII that is no letter
is a lexeme of its own. A reader that goes byte by byte finds the same, whatever counts as a
letter beyond ASCII. -/
theorem read_word (front rest : String) (c : Char) :
    let r := openAt (front ++ (String.singleton c ++ rest)) front.utf8ByteSize
    (Word.starts Unicode.isAlphabetic c = true →
      ∃ word, Text.LongestRun (Word.goesOn Unicode.isAlphanumeric) (c :: rest.toList) word ∧
        r.lexeme = ⟨.word, word⟩ ∧ r.lexeme.length = Text.byteSize word) ∧
    (Unicode.beyondAscii c = true → Unicode.isAlphabetic c = false →
      r.lexeme = ⟨.unknown, [c]⟩ ∧ r.lexeme.length = c.utf8Size) ∧
    ∀ alphabetic alphanumeric : Char → Bool,
      (∀ d, alphabetic d = true → alphanumeric d = true) →
      (Word.starts alphabetic c = true →
        ∃ word, Text.LongestRun (Word.goesOn alphanumeric) (c :: rest.toList) word ∧
          r.scanWord alphabetic alphanumeric = (.word, r.advance (Text.byteSize word))) ∧
      (Unicode.beyondAscii c = true → alphabetic c = false →
        r.scanWord alphabetic alphanumeric = (.unknown, r.advance c.utf8Size)) := by
  intro r
  have htext : (String.singleton c ++ rest).toList = c :: rest.toList := by
    rw [String.toList_append, String.toList_singleton, List.singleton_append]
  have hl : r.lexeme = Lexeme.first (c :: rest.toList) := by
    show (openAt _ _).lexeme = _
    rw [lexeme_openAt_append, htext]
  have hfaces : r.Faces (c :: rest.toList) := htext ▸ faces_openAt_append front _
  refine ⟨fun hstarts => ?_, fun hbeyond hletter => ?_, fun alphabetic alphanumeric himp =>
    ⟨fun hstarts => ?_, fun hbeyond hletter => ?_⟩⟩
  · rw [hl, Lexeme.first_of_isWordStart ((Word.isWordStart_eq c).trans hstarts),
      funext Word.isWordPart_eq]
    exact ⟨_, Text.longestRun_takeWhile _ _, rfl, rfl⟩
  · have hbeyond' : 128 ≤ c.toNat := of_decide_eq_true hbeyond
    have hstart : isWordStart c = false := by
      rw [Word.isWordStart_eq, Word.starts_of_beyondAscii hbeyond', hletter]
    have hfirst : Lexeme.first ([c] ++ rest.toList) = ⟨.unknown, [c]⟩ :=
      Lexeme.first_of_measure_eq (Lexeme.measure_of_not_letter hbeyond' hstart _)
    rw [List.singleton_append] at hfirst
    rw [hl, hfirst]
    exact ⟨rfl, rfl⟩
  · exact ⟨_, Text.longestRun_takeWhile _ _, hfaces.scanWord_of_starts himp hstarts⟩
  · exact hfaces.scanWord_of_not_alphabetic (of_decide_eq_true hbeyond) hletter

/-- Letters beyond ASCII stand anywhere in a word, and digits beyond ASCII behind its start. -/
example : (openAt "é1 = x٣" 0).lexeme = ⟨.word, ['é', '1']⟩ ∧
    (openAt "é1 = x٣" 6).lexeme = ⟨.word, ['x', '٣']⟩ := by
  decide +kernel

end Reader

end JavaHighlight
