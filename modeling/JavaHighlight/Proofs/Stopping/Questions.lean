import JavaHighlight.Proofs.Lines.InStep
import JavaHighlight.Proofs.Tiling.Lossless

/-!
# Asking a stream for tokens

A stream is asked for one token after the other, and at each question it may or may not be asked
to stop. `TokenStream.Asked` lists all that a question can do. Draining a stream is asking until
there is no token any more (`TokenStream.finishUnder_const`).
-/

namespace JavaHighlight.TokenStream

/-- Whether the next question looks at whether the stream is asked to stop. -/
def Looks (s : TokenStream) : Prop :=
  s.pending = [] ∧ s.status = .reading

/-- Whether a stream has nothing to hand out any more. -/
def Idle (s : TokenStream) : Prop :=
  s.pending = [] ∧ s.status ≠ .reading

/-- The stream once the first of the upcoming lexemes has been read, with the tokens of it that
are still pending. -/
def readOn (s : TokenStream) (o : Occurrence) (os : List Occurrence) (pending : List Token) :
    TokenStream :=
  { s with
    upcoming := os
    pending
    progress := (s.progress.emit .whole s.index o).2
    recorded := s.recorded ++ (s.progress.emit .whole s.index o).1.diagnostics }

/-- What a question does: the answer and the stream behind it. -/
inductive Asked (stop : Bool) (s : TokenStream) : Option Token × TokenStream → Prop
  /-- A token is left of the lexeme that was read last. -/
  | pending {token : Token} {rest : List Token} (hpending : s.pending = token :: rest) :
      Asked stop s (some token, { s with pending := rest })
  | idle (hidle : s.Idle) : Asked stop s (none, s)
  | stopped (hlooks : s.Looks) (hstop : (stop && s.stoppable) = true) :
      Asked stop s (none, { s with pending := [], status := .cancelled })
  | ended (hlooks : s.Looks) (hstop : (stop && s.stoppable) = false)
      (hupcoming : s.upcoming = []) :
      Asked stop s (none, { s with pending := [], status := .ended })
  | read (hlooks : s.Looks) (hstop : (stop && s.stoppable) = false) {o : Occurrence}
      {os : List Occurrence} (hupcoming : s.upcoming = o :: os) {token : Token}
      {rest : List Token} (htokens : (s.progress.emit .whole s.index o).1.tokens = token :: rest) :
      Asked stop s (some token, s.readOn o os rest)
  /-- A lexeme without tokens was read. No lexeme of a source is such. -/
  | silent (hlooks : s.Looks) (hstop : (stop && s.stoppable) = false) {o : Occurrence}
      {os : List Occurrence} (hupcoming : s.upcoming = o :: os)
      (htokens : (s.progress.emit .whole s.index o).1.tokens = []) :
      Asked stop s (none, s.readOn o os [])

theorem asked_next (stop : Bool) (s : TokenStream) : Asked stop s (s.next stop) := by
  unfold next
  dsimp only
  by_cases hrefill : s.pending ≠ [] ∨ s.status ≠ .reading
  · have hsame : s.refill stop = s := if_pos hrefill
    rw [hsame]
    cases hpending : s.pending with
    | nil => exact .idle ⟨hpending, hrefill.resolve_left (not_not_intro hpending)⟩
    | cons token rest => exact .pending hpending
  · have hlooks : s.Looks := by
      rw [not_or, not_not, not_not] at hrefill
      exact hrefill
    by_cases hstop : (stop && s.stoppable) = true
    · have hcancelled : s.refill stop = { s with status := .cancelled } := by
        unfold refill
        rw [if_neg hrefill, if_pos hstop]
      rw [hcancelled]
      dsimp only
      rw [hlooks.1]
      exact .stopped hlooks hstop
    · have hgo : (stop && s.stoppable) = false := Bool.eq_false_iff.mpr hstop
      cases hupcoming : s.upcoming with
      | nil =>
        have hended : s.refill stop = { s with status := .ended } := by
          unfold refill
          rw [if_neg hrefill, if_neg hstop, hupcoming]
        rw [hended]
        dsimp only
        rw [hlooks.1]
        exact .ended hlooks hgo hupcoming
      | cons o os =>
        have hread : s.refill stop =
            s.readOn o os (s.progress.emit .whole s.index o).1.tokens := by
          unfold refill
          rw [if_neg hrefill, if_neg hstop, hupcoming]
          rfl
        rw [hread]
        unfold readOn
        dsimp only
        cases htokens : (s.progress.emit .whole s.index o).1.tokens with
        | nil => exact .silent hlooks hgo hupcoming htokens
        | cons token rest => exact .read hlooks hgo hupcoming htokens

/-! ## One question after the other -/

/-- The stream behind the first `n` questions. The flag says for each question whether the
stream is asked to stop. -/
def after (s : TokenStream) (flag : Nat → Bool) : Nat → TokenStream
  | 0 => s
  | n + 1 => ((s.after flag n).next (flag n)).2

/-- The answer to question `n`, counted from zero. -/
def answer (s : TokenStream) (flag : Nat → Bool) (n : Nat) : Option Token :=
  ((s.after flag n).next (flag n)).1

/-- The tokens that the first `n` questions return. -/
def returned (s : TokenStream) (flag : Nat → Bool) (n : Nat) : List Token :=
  (List.range n).filterMap (s.answer flag)

theorem after_succ (s : TokenStream) (flag : Nat → Bool) (n : Nat) :
    s.after flag (n + 1) = ((s.after flag n).next (flag n)).2 := rfl

theorem returned_succ (s : TokenStream) (flag : Nat → Bool) (n : Nat) :
    s.returned flag (n + 1) = s.returned flag n ++ (s.answer flag n).toList := by
  unfold returned
  rw [List.range_succ, List.filterMap_append]
  cases h : s.answer flag n with
  | none => rw [List.filterMap_cons_none h]; rfl
  | some token => rw [List.filterMap_cons_some h]; rfl

/-- A token that is handed out is one less that is pending, or a lexeme less that is upcoming. -/
theorem lt_of_next {stop : Bool} {s t : TokenStream} {token : Token}
    (h : s.next stop = (some token, t)) :
    Prod.Lex (· < ·) (· < ·) (t.upcoming.length, t.pending.length)
      (s.upcoming.length, s.pending.length) := by
  have hasked := asked_next stop s
  rw [h] at hasked
  cases hasked with
  | pending hpending =>
    refine .right _ ?_
    rw [hpending]
    exact Nat.lt_succ_self _
  | read _ _ hupcoming =>
    refine .left _ _ ?_
    rw [hupcoming]
    exact Nat.lt_succ_self _

/-- Ask for tokens, from question `n` on, until there is none. -/
def handOut (flag : Nat → Bool) (n : Nat) (s : TokenStream) : List Token × TokenStream :=
  match _h : s.next (flag n) with
  | (none, last) => ([], last)
  | (some token, t) =>
    let (tokens, last) := handOut flag (n + 1) t
    (token :: tokens, last)
termination_by (s.upcoming.length, s.pending.length)
decreasing_by exact lt_of_next _h

/-- The output of a stream that has nothing to hand out any more. -/
def finalOutput (s : TokenStream) : Output :=
  ⟨[], s.recorded ++ if s.isCancelled then [] else s.unclosed s.progress, s.isCancelled⟩

/-- What is still to come and all diagnostics, if the stream may be asked to stop at any question
from `n` on. -/
def finishUnder (flag : Nat → Bool) (n : Nat) (s : TokenStream) : Output :=
  let (tokens, last) := s.handOut flag n
  { last.finalOutput with tokens }

theorem handOut_of_none {flag : Nat → Bool} {n : Nat} {s last : TokenStream}
    (h : s.next (flag n) = (none, last)) : s.handOut flag n = ([], last) := by
  rw [handOut]
  split
  · next h' => rw [(Prod.mk.inj (h.symm.trans h')).2]
  · next h' => cases h.symm.trans h'

theorem handOut_of_some {flag : Nat → Bool} {n : Nat} {s t : TokenStream} {token : Token}
    (h : s.next (flag n) = (some token, t)) :
    s.handOut flag n = (token :: (t.handOut flag (n + 1)).1, (t.handOut flag (n + 1)).2) := by
  rw [handOut]
  split
  · next h' => cases h.symm.trans h'
  · next h' =>
    obtain ⟨htoken, rfl⟩ := Prod.mk.inj (h.symm.trans h')
    rw [Option.some.inj htoken]

/-! ## Draining is asking to the end -/

/-- Every upcoming lexeme has tokens, wherever it is read. -/
def Voiced (s : TokenStream) : Prop :=
  ∀ o ∈ s.upcoming, ∀ progress : Progress, (progress.emit .whole s.index o).1.tokens ≠ []

theorem voiced_openAt (source : String) (offset : Nat) (stoppable : Bool) :
    (openAt source offset stoppable).Voiced := by
  intro o ho progress hnil
  obtain ⟨before, after, hls, -, -⟩ := Occurrence.mem_ofLexemes_iff.mp ho
  obtain ⟨hl, hpos⟩ := Lexeme.inText_of_mem_ofTextFrom
    (hls ▸ List.mem_append_right before List.mem_cons_self)
  have htile := Progress.tile_emit hl hpos .whole (openAt source offset stoppable).index progress
  rw [hnil] at htile
  have hempty : o.start = o.start + o.lexeme.length := htile
  omega

theorem drain_of_go {stop : Bool} {s : TokenStream} (hreading : s.status = .reading)
    (hstop : (stop && s.stoppable) = false) :
    s.drain stop =
      let rest := s.progress.run .whole s.index s.upcoming
      ⟨s.pending ++ rest.1.tokens, s.recorded ++ rest.1.diagnostics ++ s.unclosed rest.2,
        false⟩ := by
  unfold drain
  rw [hreading]
  dsimp only
  rw [hstop]
  rfl

theorem drain_of_none {stop : Bool} {s last : TokenStream} (hs : s.Voiced)
    (h : s.next stop = (none, last)) : s.drain stop = last.finalOutput := by
  have hasked := asked_next stop s
  rw [h] at hasked
  cases hasked with
  | idle hidle =>
    unfold drain finalOutput isCancelled
    rw [hidle.1]
    cases hstatus : s.status with
    | reading => exact absurd hstatus hidle.2
    | ended => rfl
    | cancelled => exact congrArg (Output.mk [] · true) (List.append_nil _).symm
  | stopped hlooks hstop =>
    unfold drain
    rw [hlooks.2, hlooks.1]
    dsimp only
    rw [if_pos hstop]
    exact congrArg (Output.mk [] · true) (List.append_nil _).symm
  | ended hlooks hstop hupcoming =>
    rw [drain_of_go hlooks.2 hstop, hupcoming, hlooks.1]
    exact congrArg (Output.mk [] · false) (congrArg (· ++ _) (List.append_nil s.recorded))
  | silent hlooks hstop hupcoming htokens =>
    refine absurd htokens (hs _ ?_ _)
    rw [hupcoming]
    exact List.mem_cons_self

theorem drain_of_some {stop : Bool} {s t : TokenStream} {token : Token}
    (h : s.next stop = (some token, t)) :
    s.drain stop = { t.drain stop with tokens := token :: (t.drain stop).tokens } := by
  have hasked := asked_next stop s
  rw [h] at hasked
  cases hasked with
  | pending hpending =>
    unfold drain
    rw [hpending]
    dsimp only
    cases s.status with
    | ended | cancelled => rfl
    | reading =>
      dsimp only
      split <;> rfl
  | @read hlooks hstop o os hupcoming _ rest htokens =>
    have ht := drain_of_go (s := s.readOn o os rest) hlooks.2 hstop
    rw [drain_of_go hlooks.2 hstop, ht, hupcoming, Progress.run_cons, hlooks.1]
    dsimp only
    rw [Emission.tokens_append, Emission.diagnostics_append, htokens,
      ← List.append_assoc s.recorded]
    rfl

theorem Voiced.of_next {s : TokenStream} (hs : s.Voiced) (stop : Bool) :
    (s.next stop).2.Voiced := by
  have hasked := asked_next stop s
  generalize s.next stop = answered at hasked ⊢
  have htail : ∀ {o : Occurrence} {os : List Occurrence}, s.upcoming = o :: os →
      ∀ o' ∈ os, ∀ progress : Progress, (progress.emit .whole s.index o').1.tokens ≠ [] := by
    intro o os hupcoming o' ho' progress
    refine hs o' ?_ progress
    rw [hupcoming]
    exact List.mem_cons_of_mem o ho'
  cases hasked with
  | pending | idle | stopped | ended => exact hs
  | read _ _ hupcoming => exact htail hupcoming
  | silent _ _ hupcoming => exact htail hupcoming

theorem finishUnder_const (stop : Bool) (n : Nat) {s : TokenStream} (hs : s.Voiced) :
    s.finishUnder (fun _ => stop) n = s.drain stop := by
  fun_induction handOut (fun _ => stop) n s with
  | case1 n s last h =>
    rw [drain_of_none hs h]
    unfold finishUnder
    rw [handOut_of_none h]
    rfl
  | case2 n s token t h tokens last hlast ih =>
    have ht : t.Voiced := by
      have := hs.of_next stop
      rw [h] at this
      exact this
    rw [drain_of_some h, ← ih ht]
    unfold finishUnder
    rw [handOut_of_some h]

end JavaHighlight.TokenStream
