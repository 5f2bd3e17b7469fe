import JavaHighlight.Proofs.Faults.Reports
import JavaHighlight.Proofs.Stopping.Questions

/-!
# What is left of a stopped stream

However a stream is asked to stop, what it has handed out are the tokens of the lexemes that it
has read, less those that are pending (`TokenStream.Underway`). So the tokens are a prefix of
those of a stream that nobody stops, and the diagnostics are those of the tokens in this prefix
(`TokenStream.prefix_of_stopped`).
-/

namespace JavaHighlight

namespace Progress

variable {mode : Mode} {index : LineIndex} {progress : Progress} {d : Diagnostic}

/-! ## The spans of diagnostics -/

theorem exists_token_of_mem_emitPieces {start : Nat} {pieces : List Piece}
    (hd : d ∈ (progress.emitPieces index start pieces).1.diagnostics) :
    ∃ token ∈ (progress.emitPieces index start pieces).1.tokens, token.span = d.span := by
  induction pieces generalizing start progress with
  | nil => cases hd
  | cons piece pieces ih =>
    rw [emitPieces_cons] at hd ⊢
    rcases List.mem_append.mp hd with hd | hd
    · obtain ⟨issue, -, rfl⟩ := List.mem_map.mp hd
      exact ⟨_, List.mem_append_left _ (List.mem_singleton_self _), rfl⟩
    · obtain ⟨token, htoken, hspan⟩ := ih hd
      exact ⟨token, List.mem_append_right _ htoken, hspan⟩

theorem exists_token_of_mem_emit {o : Occurrence}
    (hd : d ∈ (progress.emit mode index o).1.diagnostics) :
    ∃ token ∈ (progress.emit mode index o).1.tokens, token.span = d.span := by
  have hjudged := Reading.judged_ofLexeme mode progress.context o.lexeme o.ahead
  generalize hreading : Reading.ofLexeme mode progress.context o.lexeme o.ahead = reading
    at hjudged
  cases hjudged with
  | sound hproblem =>
    unfold emit at hd ⊢
    rw [hreading] at hd ⊢
    dsimp only at hd ⊢
    rw [hproblem] at hd
    exact exists_token_of_mem_emitPieces hd
  | faulty hfault =>
    obtain ⟨token, hemit, hspan, -⟩ := emit_of_faulty index hreading hfault.closes?_eq_none
    rw [hemit] at hd ⊢
    rw [List.mem_singleton.mp hd]
    exact ⟨token, List.mem_singleton_self token, hspan⟩

theorem exists_token_of_mem_run {os : List Occurrence}
    (hd : d ∈ (progress.run mode index os).1.diagnostics) :
    ∃ token ∈ (progress.run mode index os).1.tokens, token.span = d.span := by
  rw [diagnostics_run] at hd
  obtain ⟨v, hv, hd⟩ := List.mem_flatMap.mp hd
  obtain ⟨token, htoken, hspan⟩ := exists_token_of_mem_emit hd
  rw [tokens_run]
  exact ⟨token, List.mem_flatMap.mpr ⟨v, hv, htoken⟩, hspan⟩

theorem run_concat (mode : Mode) (index : LineIndex) (progress : Progress)
    (os : List Occurrence) (o : Occurrence) :
    progress.run mode index (os ++ [o]) =
      let first := progress.run mode index os
      let last := first.2.emit mode index o
      (first.1 ++ last.1, last.2) := by
  rw [run_append, run_cons]
  show (_ ++ (_ ++ Emission.empty), _) = _
  rw [Emission.append_empty]
  rfl

theorem ne_unclosed_of_mem_run {os : List Occurrence}
    (hd : d ∈ (progress.run mode index os).1.diagnostics) (count : Nat) (innermost : Char) :
    d.problem ≠ .unbalanced (.unclosed count innermost) := by
  rw [diagnostics_run] at hd
  obtain ⟨v, -, hd⟩ := List.mem_flatMap.mp hd
  rcases diagnostics_emission hd with hproblem | ⟨x, -, issue, hissue, hproblem⟩
  · intro h
    rw [h] at hproblem
    exact Reading.notUnbalanced_ofLexeme mode v.context v.lexeme v.occurrence.ahead _ hproblem
  · obtain ⟨bracket, -, ⟨-, rfl⟩ | ⟨region, -, -, rfl⟩⟩ := Context.issue?_eq_some hissue
    · rw [hproblem]
      simp
    · rw [hproblem]
      simp

end Progress

namespace TokenStream

variable {s₀ s : TokenStream} {handed : List Token} {read : List Occurrence}

/-! ## Streams underway -/

/-- A stream that was opened as `s₀`, has read some lexemes and has handed out some tokens of
these. -/
structure Underway (s₀ s : TokenStream) (handed : List Token) (read : List Occurrence) :
    Prop where
  upcoming : s₀.upcoming = read ++ s.upcoming
  progress : s.progress = (s₀.progress.run .whole s₀.index read).2
  tokens : handed ++ s.pending = (s₀.progress.run .whole s₀.index read).1.tokens
  recorded : s.recorded = (s₀.progress.run .whole s₀.index read).1.diagnostics
  index : s.index = s₀.index
  stoppable : s.stoppable = s₀.stoppable
  ended : s.status = .ended → s.upcoming = []
  idle : s.status ≠ .reading → s.pending = []

theorem underway_openAt (source : String) (offset : Nat) (stoppable : Bool) :
    Underway (openAt source offset stoppable) (openAt source offset stoppable) [] [] where
  upcoming := rfl
  progress := rfl
  tokens := rfl
  recorded := rfl
  index := rfl
  stoppable := rfl
  ended := fun h => by cases h
  idle := fun _ => rfl

/-- A question takes a stream further. If there is no answer, nothing is left to hand out. -/
theorem Underway.next (h : Underway s₀ s handed read) (hs₀ : s₀.Voiced) (stop : Bool) :
    (∃ read', Underway s₀ (s.next stop).2 (handed ++ (s.next stop).1.toList) read') ∧
      ((s.next stop).1 = none → (s.next stop).2.Idle) := by
  have hasked := asked_next stop s
  generalize s.next stop = answered at hasked ⊢
  cases hasked with
  | @pending token rest hpending =>
    refine ⟨⟨read, { h with tokens := ?_, idle := fun hstatus => ?_ }⟩, by rintro ⟨⟩⟩
    · rw [← h.tokens, hpending]
      exact List.append_assoc handed [token] rest
    · have hnil := h.idle hstatus
      rw [hpending] at hnil
      cases hnil
  | idle hidle =>
    refine ⟨⟨read, { h with tokens := ?_ }⟩, fun _ => hidle⟩
    rw [← h.tokens]
    exact congrArg (· ++ s.pending) (List.append_nil handed)
  | stopped hlooks =>
    refine ⟨⟨read, { h with tokens := ?_, ended := ?_, idle := fun _ => rfl }⟩,
      fun _ => ⟨rfl, by simp⟩⟩
    · rw [← h.tokens, hlooks.1]
      exact congrArg (· ++ []) (List.append_nil handed)
    · rintro ⟨⟩
  | ended hlooks _ hupcoming =>
    refine ⟨⟨read, { h with tokens := ?_, ended := fun _ => hupcoming, idle := fun _ => rfl }⟩,
      fun _ => ⟨rfl, by simp⟩⟩
    rw [← h.tokens, hlooks.1]
    exact congrArg (· ++ []) (List.append_nil handed)
  | @read hlooks _ o os hupcoming token rest htokens =>
    refine ⟨⟨read ++ [o], ?_⟩, by rintro ⟨⟩⟩
    have hrun := Progress.run_concat .whole s₀.index s₀.progress read o
    dsimp only at hrun
    rw [← h.progress, ← h.index] at hrun
    exact {
      upcoming := by rw [h.upcoming, hupcoming]; exact List.append_cons read o os
      progress := by rw [← h.index, hrun]; rfl
      tokens := by
        rw [← h.index, hrun, Emission.tokens_append, h.index, ← h.tokens, hlooks.1, ← h.index,
          htokens, List.append_nil]
        exact List.append_assoc handed [token] rest
      recorded := by
        rw [← h.index, hrun, Emission.diagnostics_append, h.index, ← h.recorded, ← h.index]
        rfl
      index := h.index
      stoppable := h.stoppable
      ended := fun hstatus => by cases hlooks.2.symm.trans hstatus
      idle := fun hstatus => absurd hlooks.2 hstatus }
  | @silent _ _ o os hupcoming htokens =>
    refine absurd htokens ?_
    rw [h.index]
    refine hs₀ o ?_ s.progress
    rw [h.upcoming, hupcoming]
    exact List.mem_append_right read List.mem_cons_self

/-- What the first questions hand out are the tokens of the lexemes read meanwhile, less those
that are pending. -/
theorem underway_after (source : String) (offset : Nat) (stoppable : Bool) (flag : Nat → Bool)
    (n : Nat) :
    let s := openAt source offset stoppable
    ∃ read, Underway s (s.after flag n) (s.returned flag n) read := by
  intro s
  induction n with
  | zero => exact ⟨[], underway_openAt source offset stoppable⟩
  | succ n ih =>
    obtain ⟨read, h⟩ := ih
    rw [after_succ, returned_succ]
    exact (h.next (voiced_openAt source offset stoppable) (flag n)).1

/-! ## Streams with nothing left -/

theorem Idle.next_eq (h : s.Idle) (stop : Bool) : s.next stop = (none, s) := by
  have hasked := asked_next stop s
  generalize s.next stop = answered at hasked
  cases hasked with
  | pending hpending =>
    rw [h.1] at hpending
    cases hpending
  | idle => rfl
  | stopped hlooks | ended hlooks | read hlooks | silent hlooks => exact absurd hlooks.2 h.2

theorem Idle.after_eq {flag : Nat → Bool} {k : Nat} (h : (s.after flag k).Idle) {m : Nat}
    (hm : k ≤ m) : s.after flag m = s.after flag k ∧ s.returned flag m = s.returned flag k ∧
      s.answer flag m = none := by
  induction hm with
  | refl => exact ⟨rfl, rfl, congrArg Prod.fst (h.next_eq (flag k))⟩
  | @step m _ ih =>
    obtain ⟨hafter, hreturned, hanswer⟩ := ih
    have hnext : s.after flag (m + 1) = s.after flag k := by
      rw [after_succ, hafter, h.next_eq]
    refine ⟨hnext, ?_, ?_⟩
    · rw [returned_succ, hreturned, hanswer]
      exact List.append_nil _
    · unfold answer
      rw [hnext, h.next_eq]

theorem idle_of_answer_eq_none {source : String} {offset : Nat} {stoppable : Bool}
    {flag : Nat → Bool} {k : Nat} (h : (openAt source offset stoppable).answer flag k = none) :
    ((openAt source offset stoppable).after flag (k + 1)).Idle ∧
      (openAt source offset stoppable).returned flag (k + 1) =
        (openAt source offset stoppable).returned flag k := by
  obtain ⟨read, hunderway⟩ := underway_after source offset stoppable flag k
  refine ⟨(hunderway.next (voiced_openAt source offset stoppable) (flag k)).2 h, ?_⟩
  rw [returned_succ, h]
  exact List.append_nil _

/-- An answer without a token comes between two lexemes and is the last one. -/
theorem answer_eq_none {source : String} {offset : Nat} {stoppable : Bool} {flag : Nat → Bool}
    {k : Nat} (h : (openAt source offset stoppable).answer flag k = none) :
    let s := openAt source offset stoppable
    (∃ read rest, s.upcoming = read ++ rest ∧
      s.returned flag k = (s.progress.run .whole s.index read).1.tokens) ∧
    ∀ m ≥ k, s.answer flag m = none := by
  intro s
  obtain ⟨hidle, hreturned⟩ := idle_of_answer_eq_none h
  obtain ⟨read, hunderway⟩ := underway_after source offset stoppable flag (k + 1)
  have htokens := hunderway.tokens
  rw [hidle.1, List.append_nil, hreturned] at htokens
  refine ⟨⟨read, _, hunderway.upcoming, htokens⟩, fun m hm => ?_⟩
  rcases Nat.eq_or_lt_of_le hm with rfl | hlt
  · exact h
  · exact (hidle.after_eq hlt).2.2

/-- Handing out the rest is asking until nothing is left. -/
theorem exists_handOut_eq (source : String) (offset : Nat) (stoppable : Bool)
    (flag : Nat → Bool) (n : Nat) :
    let s := openAt source offset stoppable
    ∃ m, n < m ∧ ((s.after flag n).handOut flag n).2 = s.after flag m ∧
      s.returned flag m = s.returned flag n ++ ((s.after flag n).handOut flag n).1 ∧
      (s.after flag m).Idle := by
  intro s
  have hvoiced := voiced_openAt source offset stoppable
  generalize ht : s.after flag n = t
  fun_induction handOut flag n t with
  | case1 n t last h =>
    subst ht
    have hlast : s.after flag (n + 1) = last := by rw [after_succ, h]
    have hanswer : s.answer flag n = none := congrArg Prod.fst h
    obtain ⟨read, hunderway⟩ := underway_after source offset stoppable flag n
    refine ⟨n + 1, Nat.lt_succ_self n, hlast.symm, ?_, ?_⟩
    · rw [returned_succ, hanswer]
      rfl
    · exact (hunderway.next hvoiced (flag n)).2 hanswer
  | case2 n t token u h tokens last hlast ih =>
    subst ht
    have hnext : s.after flag (n + 1) = u := by rw [after_succ, h]
    have hanswer : s.answer flag n = some token := congrArg Prod.fst h
    obtain ⟨m, hm, hlast', hreturned, hidle⟩ := ih hnext
    rw [hlast] at hlast' hreturned
    refine ⟨m, by omega, hlast', ?_, hidle⟩
    rw [hreturned, returned_succ, hanswer]
    exact List.append_assoc _ [token] tokens

/-! ## Stops -/

/-- A question stops the stream if it looks at the flag while the flag is raised. -/
theorem status_next_eq_cancelled (stop : Bool) (s : TokenStream) :
    (s.next stop).2.status = .cancelled ↔
      s.status = .cancelled ∨ s.Looks ∧ (stop && s.stoppable) = true := by
  have hasked := asked_next stop s
  generalize s.next stop = answered at hasked ⊢
  have hgoes : s.Looks → (stop && s.stoppable) = false →
      ¬(s.status = .cancelled ∨ s.Looks ∧ (stop && s.stoppable) = true) := by
    rintro ⟨-, hreading⟩ hgo (hcancelled | ⟨-, hstop⟩)
    · cases hreading.symm.trans hcancelled
    · cases hgo.symm.trans hstop
  cases hasked with
  | pending hpending =>
    refine ⟨.inl, fun h => h.resolve_right fun hstop => ?_⟩
    have hnil := hstop.1.1
    rw [hpending] at hnil
    cases hnil
  | idle hidle => exact ⟨.inl, fun h => h.resolve_right fun hstop => hidle.2 hstop.1.2⟩
  | stopped hlooks hstop => exact iff_of_true rfl (.inr ⟨hlooks, hstop⟩)
  | ended hlooks hgo => exact iff_of_false (by rintro ⟨⟩) (hgoes hlooks hgo)
  | read hlooks hgo | silent hlooks hgo =>
    exact iff_of_false (fun h => hgoes hlooks hgo (.inl h)) (hgoes hlooks hgo)

theorem stoppable_after (s : TokenStream) (flag : Nat → Bool) (n : Nat) :
    (s.after flag n).stoppable = s.stoppable := by
  induction n with
  | zero => rfl
  | succ n ih =>
    rw [after_succ, ← ih]
    have hasked := asked_next (flag n) (s.after flag n)
    generalize (s.after flag n).next (flag n) = answered at hasked ⊢
    cases hasked <;> rfl

theorem status_after_eq_cancelled (hs : s.stoppable = true) (hreading : s.status = .reading)
    (flag : Nat → Bool) (n : Nat) : (s.after flag n).status = .cancelled ↔
      ∃ k < n, flag k = true ∧ (s.after flag k).Looks := by
  induction n with
  | zero =>
    refine iff_of_false ?_ fun ⟨k, hk, _⟩ => absurd hk (Nat.not_lt_zero k)
    show s.status ≠ .cancelled
    rw [hreading]
    simp
  | succ n ih =>
    rw [after_succ, status_next_eq_cancelled, ih, stoppable_after, hs, Bool.and_true]
    constructor
    · rintro (⟨k, hk, hflag⟩ | ⟨hlooks, hflag⟩)
      · exact ⟨k, Nat.lt_succ_of_lt hk, hflag⟩
      · exact ⟨n, Nat.lt_succ_self n, hflag, hlooks⟩
    · rintro ⟨k, hk, hflag, hlooks⟩
      rcases Nat.lt_succ_iff_lt_or_eq.mp hk with hk | rfl
      · exact .inl ⟨k, hk, hflag, hlooks⟩
      · exact .inr ⟨hlooks, hflag⟩

/-! ## Tokens and diagnostics of a prefix -/

/-- Among the diagnostics of tokens that follow one another, those of the first tokens are the
ones that have the span of one of these. -/
theorem filter_diagnostics {start stop : Nat} {first second : List Token}
    {ds others points : List Diagnostic}
    (htile : Span.Tile start stop ((first ++ second).map Token.span))
    (hds : ∀ d ∈ ds, ∃ token ∈ first, token.span = d.span)
    (hothers : ∀ d ∈ others, ∃ token ∈ second, token.span = d.span)
    (hpoints : ∀ d ∈ points, d.span.start = d.span.stop) :
    (ds ++ others ++ points).filter (fun d => first.any (·.span = d.span)) = ds := by
  have hfirst : ds.filter (fun d => first.any (·.span = d.span)) = ds := by
    rw [List.filter_eq_self]
    intro d hd
    obtain ⟨token, htoken, hspan⟩ := hds d hd
    exact List.any_eq_true.mpr ⟨token, htoken, decide_eq_true hspan⟩
  have hsecond : others.filter (fun d => first.any (·.span = d.span)) = [] := by
    rw [List.filter_eq_nil_iff]
    intro d hd hany
    obtain ⟨token, htoken, hspan⟩ := List.any_eq_true.mp hany
    obtain ⟨other, hother, hspan'⟩ := hothers d hd
    have hpairwise := htile.pairwise
    rw [List.map_append, List.pairwise_append] at hpairwise
    have hlt := (hpairwise.2.2 _ (List.mem_map_of_mem htoken) _ (List.mem_map_of_mem hother)).2
    rw [of_decide_eq_true hspan, hspan'] at hlt
    exact Nat.lt_irrefl _ hlt
  have hthird : points.filter (fun d => first.any (·.span = d.span)) = [] := by
    rw [List.filter_eq_nil_iff]
    intro d hd hany
    obtain ⟨token, htoken, hspan⟩ := List.any_eq_true.mp hany
    have hlt := (htile.of_mem.2 token.span
      (List.mem_map_of_mem (List.mem_append_left _ htoken))).2.1
    rw [of_decide_eq_true hspan, hpoints d hd] at hlt
    exact Nat.lt_irrefl _ hlt
  rw [List.filter_append, List.filter_append, hfirst, hsecond, hthird, List.append_nil,
    List.append_nil]

/-- What a stream that was opened as `s₀` has read is a first part of what nobody stops it from
reading. -/
theorem Underway.drain_eq (h : Underway s₀ s handed read) (hidle : s.Idle)
    (hreading : s₀.status = .reading) (hpending : s₀.pending = []) (hrecorded : s₀.recorded = []) :
    let rest := s.progress.run .whole s.index s.upcoming
    s₀.drain false = ⟨handed ++ rest.1.tokens,
      s.recorded ++ rest.1.diagnostics ++ s.unclosed rest.2, false⟩ := by
  have htokens := h.tokens
  rw [hidle.1, List.append_nil] at htokens
  rw [drain_of_go hreading (Bool.false_and _), hpending, hrecorded, h.upcoming,
    Progress.run_append, ← h.progress, ← h.index]
  dsimp only
  unfold unclosed
  rw [Emission.tokens_append, Emission.diagnostics_append, h.index, ← htokens, ← h.recorded]
  rfl

/-- A stream with nothing left to hand out has handed out a prefix of the tokens, and has recorded
the diagnostics of these. If it has come to the end of the source, that is all there is. -/
theorem Underway.of_idle {source : String} {offset : Nat}
    (h : Underway (openAt source offset true) s handed read) (hidle : s.Idle) :
    let plain := (openAt source offset false).drain false
    handed <+: plain.tokens ∧
      s.recorded = plain.diagnostics.filter (fun d => handed.any (·.span = d.span)) ∧
      (s.status = .ended →
        handed = plain.tokens ∧ s.finalOutput.diagnostics = plain.diagnostics) := by
  intro plain
  have hplain : plain = _ := h.drain_eq hidle rfl rfl rfl
  have htile : Span.Tile _ _ (plain.tokens.map Token.span) :=
    tile_drain_openAt source offset false
  have htokens := h.tokens
  rw [hidle.1, List.append_nil] at htokens
  rw [hplain] at htile ⊢
  refine ⟨List.prefix_append _ _, (filter_diagnostics htile ?_ ?_ ?_).symm, fun hended => ?_⟩
  · intro d hd
    rw [h.recorded] at hd
    rw [htokens]
    exact Progress.exists_token_of_mem_run hd
  · exact fun d hd => Progress.exists_token_of_mem_run hd
  · intro d hd
    obtain ⟨issue, -, rfl⟩ := List.mem_map.mp hd
    rfl
  · have hflag : s.isCancelled = false := by
      unfold isCancelled
      rw [hended]
      rfl
    rw [h.ended hended, finalOutput, hflag]
    exact ⟨(List.append_nil handed).symm,
      congrArg (· ++ s.unclosed s.progress) (List.append_nil s.recorded).symm⟩

/-- **A stopped stream leaves a valid prefix.** Whenever it is asked to stop, the tokens are a
prefix of those of a stream that nobody stops. An answer without a token comes between two
lexemes and is the last one. A stream counts as stopped if a question looked at a raised flag;
it then has the diagnostics of the tokens that it has read, and otherwise all of them. -/
theorem prefix_of_stopped (source : String) (offset : Nat) (flag : Nat → Bool) (n : Nat) :
    let s := openAt source offset true
    let plain := (openAt source offset false).drain false
    let output := (s.after flag n).finishUnder flag n
    let lexed := s.returned flag n ++ output.tokens
    lexed <+: plain.tokens ∧
      (∀ k, s.answer flag k = none →
        (∃ read rest, s.upcoming = read ++ rest ∧
          s.returned flag k = (s.progress.run .whole s.index read).1.tokens) ∧
        ∀ m ≥ k, s.answer flag m = none) ∧
      (output.cancelled = true ↔ ∃ k, flag k = true ∧ (s.after flag k).Looks) ∧
      (output.cancelled = true →
        output.diagnostics = plain.diagnostics.filter (fun d => lexed.any (·.span = d.span)) ∧
        ∀ d ∈ output.diagnostics, ∀ count innermost,
          d.problem ≠ .unbalanced (.unclosed count innermost)) ∧
      (output.cancelled = false →
        lexed = plain.tokens ∧ output.diagnostics = plain.diagnostics) := by
  intro s plain output lexed
  obtain ⟨m, -, hlast, hreturned, hidle⟩ := exists_handOut_eq source offset true flag n
  obtain ⟨read, hunderway⟩ := underway_after source offset true flag m
  have hlexed : s.returned flag m = lexed := hreturned
  rw [hlexed] at hunderway
  obtain ⟨hinitial, hrecorded, hended⟩ := hunderway.of_idle hidle
  have hdiagnostics : output.diagnostics = (s.after flag m).finalOutput.diagnostics :=
    congrArg (·.finalOutput.diagnostics) hlast
  have hcancelled : output.cancelled = (s.after flag m).isCancelled :=
    congrArg (·.isCancelled) hlast
  refine ⟨hinitial, fun k => answer_eq_none, ?_, fun hstop => ?_, fun hgo => ?_⟩
  · rw [hcancelled, isCancelled, decide_eq_true_iff, status_after_eq_cancelled rfl rfl]
    refine ⟨fun ⟨k, _, hk⟩ => ⟨k, hk⟩, fun ⟨k, hflag, hlooks⟩ => ⟨k, ?_, hflag, hlooks⟩⟩
    by_contra hle
    rw [(hidle.after_eq (Nat.le_of_not_lt hle)).1] at hlooks
    exact hidle.2 hlooks.2
  · have houtput : output.diagnostics = (s.after flag m).recorded := by
      rw [hdiagnostics, finalOutput, ← hcancelled, hstop]
      exact List.append_nil _
    rw [houtput]
    refine ⟨hrecorded, fun d hd => ?_⟩
    rw [hunderway.recorded] at hd
    exact Progress.ne_unclosed_of_mem_run hd
  · rw [hdiagnostics]
    refine hended ?_
    cases hstatus : (s.after flag m).status with
    | reading => exact absurd hstatus hidle.2
    | ended => rfl
    | cancelled =>
      rw [hcancelled, isCancelled, hstatus] at hgo
      cases hgo

/-- Once the flag has been raised behind the second token, no token comes any more. -/
theorem prefix_of_stopped_behind_second :
    (openAt "a b" 0 true).answer (fun k => 2 ≤ k) 2 = none ∧
      ∀ m ≥ 2, (openAt "a b" 0 true).answer (fun k => 2 ≤ k) m = none :=
  have h : (openAt "a b" 0 true).answer (fun k => 2 ≤ k) 2 = none := by decide +kernel
  ⟨h, ((prefix_of_stopped "a b" 0 (fun k => 2 ≤ k) 2).2.1 2 h).2⟩

end TokenStream

end JavaHighlight
