import JavaHighlight.Proofs.Lines.Agreement
import JavaHighlight.Proofs.Meaning.Insensitive
import JavaHighlight.Proofs.Tiling.Tokens

/-!
# Sources with the same outline

The outline of a source tells, of each lexeme that is not trivia, the number of its shape and,
of words and of block comments without their ends, the text. Sources with the same outline have
tokens with the same kinds and marks, trivia apart, and the same is wrong with them
(`tokenize_of_outline_eq`).
-/

namespace JavaHighlight

/-! ## Shapes and their numbers -/

namespace Shape

/-- The shapes that have no spelling of their own, except that of a byte of a character. -/
def unspelled : List Shape := [
  .word, .integer .decimal, .integer .hexadecimal, .integer .octal, .integer .binary, .float,
  .character, .string, .textBlock, .blank, .lineComment, .blockComment, .javadocComment,
  .nativeBlock, .unknown, .unterminatedString, .unterminatedCharacter, .unterminatedTextBlock,
  .unterminatedBlockComment, .unterminatedNativeBlock, .endOfInput]

theorem symbol_or_mem_unspelled {shape : Shape} (h : shape ≠ .stray) :
    (∃ s, shape = .symbol s) ∨ shape ∈ unspelled := by
  cases shape with
  | stray => exact absurd rfl h
  | symbol s => exact .inl ⟨s, rfl⟩
  | integer radix => cases radix <;> exact .inr (by decide)
  | _ => exact .inr (by decide)

/-- The numbers of symbols lie between those of literals and those of trivia. -/
theorem code_symbol_bounds (s : Symbol) : 32 ≤ code (.symbol s) ∧ code (.symbol s) < 112 := by
  have key : ∀ s ∈ Symbol.all, 32 ≤ code (.symbol s) ∧ code (.symbol s) < 112 := by decide
  exact key s s.mem_all

theorem code_unspelled {shape : Shape} (h : shape ∈ unspelled) :
    shape.code < 32 ∨ 112 ≤ shape.code := by
  have key : ∀ shape ∈ unspelled, shape.code < 32 ∨ 112 ≤ shape.code := by decide
  exact key shape h

theorem symbol_inj_of_code {s t : Symbol} (h : code (.symbol s) = code (.symbol t)) : s = t := by
  have hdelimiter : ∀ s : Symbol, s ∉ Symbol.operators → s ∈ Symbol.delimiters := fun s hs =>
    (List.mem_append.mp s.mem_all).resolve_left hs
  have hoperator : ∀ s ∈ Symbol.operators, Symbol.operators.idxOf s < 48 := by decide
  dsimp only [code] at h
  split_ifs at h with hs ht ht
  · exact (List.idxOf_inj hs).mp (Nat.add_left_cancel h)
  · have := hoperator s hs
    omega
  · have := hoperator t ht
    omega
  · exact (List.idxOf_inj (hdelimiter s hs)).mp (Nat.add_left_cancel h)

theorem code_inj {a b : Shape} (ha : a ≠ .stray) (hb : b ≠ .stray) (h : a.code = b.code) :
    a = b := by
  have key : ∀ a ∈ unspelled, ∀ b ∈ unspelled, a.code = b.code → a = b := by decide
  rcases symbol_or_mem_unspelled ha with ⟨s, rfl⟩ | ha
  · rcases symbol_or_mem_unspelled hb with ⟨t, rfl⟩ | hb
    · rw [symbol_inj_of_code h]
    · have := code_symbol_bounds s
      have := code_unspelled hb
      omega
  · rcases symbol_or_mem_unspelled hb with ⟨t, rfl⟩ | hb
    · have := code_symbol_bounds t
      have := code_unspelled ha
      omega
    · exact key a ha b hb h

end Shape

/-! ## Outlines -/

/-- The number of the shape of a lexeme with the text of a word or of a block comment without
its end. -/
def Lexeme.outline (l : Lexeme) : Nat × List Char :=
  (l.shape.code, if l.shape ∈ [.word, .unterminatedBlockComment] then l.text else [])

/-- The outlines of the lexemes of a source that are not trivia. -/
def outline (source : String) : List (Nat × List Char) :=
  ((Lexeme.ofText source.toList).filter (·.isSignificant)).map Lexeme.outline

namespace Lexeme

variable {cs ds : List Char}

/-- Lexemes of texts with the same outline differ at most in a text that is never looked at. -/
theorem like_of_outline_eq {l l' : Lexeme} (hl : l ∈ ofText cs) (hl' : l' ∈ ofText ds)
    (h : l.outline = l'.outline) : Like l l' := by
  obtain ⟨shape, text⟩ := l
  obtain ⟨shape', text'⟩ := l'
  obtain rfl : shape = shape' := Shape.code_inj (shape_ne_stray_of_mem_ofText hl)
    (shape_ne_stray_of_mem_ofText hl') (congrArg Prod.fst h)
  cases hmute : shape.isMute with
  | true => exact .mute hmute text text'
  | false =>
    have htext : text = text' := by
      cases shape with
      | symbol s => exact (text_of_symbol hl rfl).trans (text_of_symbol hl' rfl).symm
      | word | unterminatedBlockComment => exact congrArg Prod.snd h
      | _ => cases hmute
    rw [htext]
    exact .same _

theorem forall₂_like_of_outline_eq {as bs : List Lexeme} (ha : ∀ l ∈ as, l ∈ ofText cs)
    (hb : ∀ l ∈ bs, l ∈ ofText ds) (h : as.map outline = bs.map outline) :
    List.Forall₂ Like as bs := by
  induction as generalizing bs with
  | nil =>
    rw [List.map_eq_nil_iff.mp h.symm]
    exact .nil
  | cons l as ih =>
    cases bs with
    | nil => cases h
    | cons l' bs =>
      rw [List.forall_mem_cons] at ha hb
      obtain ⟨hhead, htail⟩ := List.cons.inj h
      exact .cons (like_of_outline_eq ha.1 hb.1 hhead) (ih ha.2 hb.2 htail)

/-- Sources with the same outline have the same significant lexemes, up to mute texts. -/
theorem sameSignificant_of_outline_eq {a b : String}
    (h : JavaHighlight.outline a = JavaHighlight.outline b) :
    SameSignificant (ofText a.toList) (ofText b.toList) :=
  .of_forall₂ <| forall₂_like_of_outline_eq (fun _ hl => (List.mem_filter.mp hl).1)
    (fun _ hl => (List.mem_filter.mp hl).1) h

end Lexeme

/-! ## The lexemes of tokens -/

/-- Of two lexemes of a text, one ends where the other starts or in front of it. -/
theorem Occurrence.eq_or_apart {start : Nat} {ls : List Lexeme} {o o' : Occurrence}
    (h : o ∈ ofLexemes start ls) (h' : o' ∈ ofLexemes start ls) :
    o = o' ∨ o.stop ≤ o'.start ∨ o'.stop ≤ o.start := by
  induction ls generalizing start with
  | nil => cases h
  | cons l ls ih =>
    have hbehind : ∀ o ∈ ofLexemes (start + l.length) ls, start + l.length ≤ o.start := by
      intro o ho
      obtain ⟨before, after, -, hstart, -⟩ := mem_ofLexemes_iff.mp ho
      omega
    rw [ofLexemes, List.mem_cons] at h h'
    rcases h with rfl | h
    · rcases h' with rfl | h'
      · exact .inl rfl
      · exact .inr (.inl (hbehind o' h'))
    · rcases h' with rfl | h'
      · exact .inr (.inr (hbehind o h))
      · exact ih h h'

def Token.LiesIn (token : Token) (o : Occurrence) : Prop :=
  o.start ≤ token.span.start ∧ token.span.stop ≤ o.stop

instance (token : Token) (o : Occurrence) : Decidable (token.LiesIn o) :=
  inferInstanceAs (Decidable (_ ∧ _))

/-- Whether a token lies within one of the lexemes that is not trivia. -/
def Token.isSignificantIn (os : List Occurrence) (token : Token) : Bool :=
  os.any fun o => o.lexeme.isSignificant && token.LiesIn o

/-- The tokens of a source that come from lexemes other than trivia. -/
def significantTokens (source : String) : List Token :=
  let os := Occurrence.ofLexemes 0 (Lexeme.ofText source.toList)
  (tokenize source).tokens.filter (·.isSignificantIn os)

namespace Token

variable {start : Nat} {ls : List Lexeme} {os : List Occurrence} {o : Occurrence} {token : Token}

/-- A token that is not empty lies in one lexeme only. -/
theorem isSignificantIn_iff (hos : ∀ o ∈ os, o ∈ Occurrence.ofLexemes start ls)
    (ho : o ∈ Occurrence.ofLexemes start ls) (htoken : token.LiesIn o)
    (hpos : token.span.start < token.span.stop) :
    token.isSignificantIn os = true ↔ o ∈ os ∧ o.lexeme.isSignificant = true := by
  rw [isSignificantIn, List.any_eq_true]
  constructor
  · rintro ⟨o', ho', h⟩
    obtain ⟨hsignificant, hlies⟩ := Bool.and_eq_true_iff.mp h
    have hlies := of_decide_eq_true hlies
    rcases Occurrence.eq_or_apart ho (hos o' ho') with rfl | h | h
    · exact ⟨ho', hsignificant⟩
    · have := htoken.2
      have := hlies.1
      omega
    · have := htoken.1
      have := hlies.2
      omega
  · rintro ⟨hmem, hsignificant⟩
    exact ⟨o, hmem, Bool.and_eq_true_iff.mpr ⟨hsignificant, decide_eq_true htoken⟩⟩

end Token

namespace Progress

variable {ls : List Lexeme}

/-- What the significant lexemes of a run emit, by what tells their tokens from others. -/
theorem filter_tokens_run (mode : Mode) (index : LineIndex) (progress : Progress)
    (os : List Occurrence) (P : Token → Bool)
    (h : ∀ o ∈ os, ∀ progress : Progress, ∀ token ∈ (progress.emit mode index o).1.tokens,
      P token = o.lexeme.isSignificant) :
    (progress.run mode index os).1.tokens.filter P =
      (progress.significantRun mode index os).tokens := by
  induction os generalizing progress with
  | nil => rfl
  | cons o os ih =>
    rw [List.forall_mem_cons] at h
    rw [run_cons, significantRun_cons, Emission.tokens_append, List.filter_append, ih _ h.2]
    cases ho : o.lexeme.isSignificant with
    | true =>
      have hall : ((progress.emit mode index o).1.tokens).filter P =
          (progress.emit mode index o).1.tokens :=
        List.filter_eq_self.mpr fun token htoken => (h.1 progress token htoken).trans ho
      rw [hall]
      rfl
    | false =>
      have hnone : ((progress.emit mode index o).1.tokens).filter P = [] := by
        refine List.filter_eq_nil_iff.mpr fun token htoken => ?_
        rw [h.1 progress token htoken, ho]
        exact Bool.false_ne_true
      rw [hnone]
      rfl

theorem isSignificantIn_of_mem_emit (hls : ∀ l ∈ ls, l.InText ∧ 0 < l.length) {mode : Mode}
    {index : LineIndex} {progress : Progress} {start : Nat} {os : List Occurrence}
    (hos : ∀ o ∈ os, o ∈ Occurrence.ofLexemes start ls) {o : Occurrence}
    (ho : o ∈ Occurrence.ofLexemes start ls) {token : Token}
    (htoken : token ∈ (progress.emit mode index o).1.tokens) :
    token.isSignificantIn os = true ↔ o ∈ os ∧ o.lexeme.isSignificant = true := by
  obtain ⟨hl, hpos⟩ : o.lexeme.InText ∧ 0 < o.lexeme.length := by
    obtain ⟨before, after, heq, -, -⟩ := Occurrence.mem_ofLexemes_iff.mp ho
    exact hls _ (heq ▸ List.mem_append_right _ List.mem_cons_self)
  obtain ⟨hstart, hlt, hstop⟩ := (tile_emit hl hpos mode index progress).of_mem.2 token.span
    (List.mem_map_of_mem htoken)
  exact Token.isSignificantIn_iff hos ho ⟨hstart, hstop⟩ hlt

theorem filter_isSignificantIn_run (hls : ∀ l ∈ ls, l.InText ∧ 0 < l.length) (mode : Mode)
    (index : LineIndex) (progress : Progress) (start : Nat) :
    let os := Occurrence.ofLexemes start ls
    (progress.run mode index os).1.tokens.filter (·.isSignificantIn os) =
      (progress.significantRun mode index os).tokens := by
  intro os
  refine filter_tokens_run mode index progress os _ fun o ho progress token htoken => ?_
  rw [Bool.eq_iff_iff, isSignificantIn_of_mem_emit hls (fun _ h => h) ho htoken]
  exact and_iff_right ho

end Progress

/-! ## Tokens by outlines -/

theorem significantTokens_eq (source : String) :
    significantTokens source = ((Progress.mk .initial 0).significantRun .whole
      (LineIndex.ofText source.toList)
      (Occurrence.ofLexemes 0 (Lexeme.ofText source.toList))).tokens := by
  unfold significantTokens
  dsimp only
  rw [(tokenize_eq_run source).2]
  exact Progress.filter_isSignificantIn_run
    (fun l hl => ⟨Lexeme.inText_of_mem_ofText hl, Lexeme.length_pos_of_mem_ofText hl⟩) _ _ _ _

/-- **Trivia and the texts of literals do not matter.** Sources with the same outline have tokens
with the same kinds and marks, trivia and starts of lines apart, and the same is wrong with them,
up to the character that starts no lexeme. -/
theorem tokenize_of_outline_eq {a b : String} (h : outline a = outline b) :
    (significantTokens a).map Token.mark = (significantTokens b).map Token.mark ∧
      (tokenize a).diagnostics.map (·.problem.anonymous) =
        (tokenize b).diagnostics.map (·.problem.anonymous) := by
  obtain ⟨hcontext, houtput⟩ := tokenize_eq_run a
  obtain ⟨hcontext', houtput'⟩ := tokenize_eq_run b
  obtain ⟨hsame, hctx⟩ := Progress.run_sameSignificant (p := ⟨.initial, 0⟩) (q := ⟨.initial, 0⟩)
    (i := LineIndex.ofText a.toList) (j := LineIndex.ofText b.toList) (s := 0) (t := 0)
    (Lexeme.sameSignificant_of_outline_eq h) rfl
  refine ⟨?_, ?_⟩
  · rw [significantTokens_eq, significantTokens_eq]
    exact hsame.marks
  · have hproblems := hsame.problems
    rw [Progress.diagnostics_significantRun, Progress.diagnostics_significantRun] at hproblems
    rw [houtput, houtput', hcontext, hcontext', hctx]
    rw [List.map_append, List.map_append, hproblems, List.map_map, List.map_map]
    rfl

/-- Two calls with other blanks, comments, strings and characters that start no lexeme. -/
theorem tokenize_of_outline_eq_calls :
    outline "f(\"one\") #" = outline "f /* two */ (\"\")\n§" ∧
      (significantTokens "f(\"one\") #").map Token.mark =
        (significantTokens "f /* two */ (\"\")\n§").map Token.mark ∧
      (tokenize "f(\"one\") #").diagnostics.map (·.problem.anonymous) =
        (tokenize "f /* two */ (\"\")\n§").diagnostics.map (·.problem.anonymous) :=
  have h : outline "f(\"one\") #" = outline "f /* two */ (\"\")\n§" := by decide +kernel
  ⟨h, tokenize_of_outline_eq h⟩

end JavaHighlight
