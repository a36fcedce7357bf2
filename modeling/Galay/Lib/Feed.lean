import Mathlib.Data.List.Basic

/-!
# Machines that are fed piece by piece

A machine reads symbols one at a time until it stops or fails. `feed` runs it over a list. What a
list does is what its pieces do one after the other (`feed_append`), so that a reader
whose calls are such runs does not depend on how its input is cut.
-/

namespace Galay.Lib

open List

variable {α σ ε : Type}

/-- What a machine does with one symbol. -/
inductive Reaction (σ ε : Type)
  | next (state : σ)
  | stop (state : σ)
  | fail (error : ε)

/-- Where a run over a list has come to. -/
inductive Progress (σ ε : Type)
  | more (state : σ)
  | stopped (state : σ) (consumed : Nat)
  | failed (error : ε)

namespace Progress

/-- The same progress with `n` symbols read before. -/
def shift (n : Nat) : Progress σ ε → Progress σ ε
  | .stopped state consumed => .stopped state (n + consumed)
  | progress => progress

@[simp] theorem shift_more (n : Nat) (state : σ) :
    (Progress.more state : Progress σ ε).shift n = .more state := rfl

@[simp] theorem shift_stopped (n consumed : Nat) (state : σ) :
    (Progress.stopped state consumed : Progress σ ε).shift n = .stopped state (n + consumed) := rfl

@[simp] theorem shift_failed (n : Nat) (error : ε) :
    (Progress.failed error : Progress σ ε).shift n = .failed error := rfl

theorem shift_eq_stopped {progress : Progress σ ε} (h : progress.shift n = .stopped state k) :
    ∃ consumed, progress = .stopped state consumed ∧ k = n + consumed := by
  cases progress with
  | more state' => cases h
  | failed error => cases h
  | stopped state' consumed =>
  cases h
  exact ⟨consumed, rfl, rfl⟩

theorem shift_shift (m n : Nat) (progress : Progress σ ε) :
    (progress.shift n).shift m = progress.shift (m + n) := by
  cases progress with
  | stopped state consumed => simp [Nat.add_assoc]
  | more state => rfl
  | failed error => rfl

theorem shift_zero (progress : Progress σ ε) : progress.shift 0 = progress := by
  cases progress with
  | stopped state consumed => rw [shift_stopped, Nat.zero_add]
  | more state => rfl
  | failed error => rfl

end Progress

def feed (react : σ → α → Reaction σ ε) : σ → List α → Progress σ ε
  | state, [] => .more state
  | state, symbol :: rest =>
    match react state symbol with
    | .next state => (feed react state rest).shift 1
    | .stop state => .stopped state 1
    | .fail error => .failed error

variable {react : σ → α → Reaction σ ε}

@[simp] theorem feed_nil (state : σ) : feed react state [] = .more state := rfl

theorem feed_next (h : react state symbol = .next state') (rest : List α) :
    feed react state (symbol :: rest) = (feed react state' rest).shift 1 := by
  rw [feed, h]

theorem feed_stop (h : react state symbol = .stop state') (rest : List α) :
    feed react state (symbol :: rest) = .stopped state' 1 := by
  rw [feed, h]

theorem feed_fail (h : react state symbol = .fail error)
    (rest : List α) : feed react state (symbol :: rest) = .failed error := by
  rw [feed, h]

theorem feed_append (state : σ) (front back : List α) :
    feed react state (front ++ back) =
      match feed react state front with
      | .more state => (feed react state back).shift front.length
      | progress => progress := by
  induction front generalizing state with
  | nil => exact (Progress.shift_zero _).symm
  | cons symbol front ih =>
  rw [cons_append, feed, feed]
  cases react state symbol with
  | stop state => rfl
  | fail error => rfl
  | next state =>
  simp only
  rw [ih]
  cases feed react state front with
  | more state' =>
    simp only [Progress.shift_more, Progress.shift_shift, length_cons, Nat.add_comm 1]
  | stopped state' consumed => rfl
  | failed error => rfl

/-- A list that a machine reads to its end without a change of kind goes to the next one. -/
theorem feed_append_of_more (h : feed react state front = .more state') (back : List α) :
    feed react state (front ++ back) = (feed react state' back).shift front.length := by
  rw [feed_append, h]

theorem feed_append_of_stopped
    (h : feed react state front = .stopped state' consumed) (back : List α) :
    feed react state (front ++ back) = .stopped state' consumed := by
  rw [feed_append, h]

theorem feed_append_of_failed (h : feed react state front = .failed error) (back : List α) :
    feed react state (front ++ back) = .failed error := by
  rw [feed_append, h]

/-! ## Runs of symbols of one kind -/

theorem feed_collect {f : List α → σ} {p : α → Bool} (hreact : ∀ word symbol, p symbol = true →
      react (f word) symbol = .next (f (word ++ [symbol])))
    (hsymbols : ∀ symbol ∈ symbols, p symbol = true) (word : List α) :
    feed react (f word) symbols = .more (f (word ++ symbols)) := by
  induction symbols generalizing word with
  | nil => rw [feed_nil, append_nil]
  | cons symbol symbols ih =>
  rw [feed_next (hreact word symbol (hsymbols symbol (mem_cons_self ..))),
    ih (fun symbol' h => hsymbols symbol' (mem_cons_of_mem _ h)), Progress.shift_more,
    append_assoc, singleton_append]

/-- Symbols that leave a machine as it is. -/
theorem feed_skip {p : α → Bool}
    (hreact : ∀ symbol, p symbol = true → react state symbol = .next state)
    (hsymbols : ∀ symbol ∈ symbols, p symbol = true) : feed react state symbols = .more state := by
  induction symbols with
  | nil => rfl
  | cons symbol symbols ih =>
  rw [feed_next (hreact symbol (hsymbols symbol (mem_cons_self ..))),
    ih (fun symbol' h => hsymbols symbol' (mem_cons_of_mem _ h)), Progress.shift_more]

/-! ## Invariants -/

section
variable {P : σ → Prop}
  (hnext : ∀ {state symbol state'}, P state → react state symbol = .next state' → P state')
include hnext

/-- What every step keeps holds where a run goes on. -/
theorem feed_more_invariant (hst : P state)
    (h : feed react state symbols = .more state') : P state' := by
  induction symbols generalizing state with
  | nil =>
    cases h
    exact hst
  | cons symbol symbols ih =>
  rw [feed] at h
  cases hreact : react state symbol with
  | stop state'' => simp [hreact] at h
  | fail error => simp [hreact] at h
  | next state'' =>
  simp only [hreact] at h
  cases hrest : feed react state'' symbols with
  | more final =>
    rw [hrest] at h
    cases h
    exact ih (hnext hst hreact) hrest
  | stopped final consumed => simp [hrest] at h
  | failed error => simp [hrest] at h

/-- A run stops at a step from a state that it keeps. -/
theorem feed_stopped_invariant
    (hst : P state) (h : feed react state symbols = .stopped state' consumed) :
    ∃ front symbol back before, symbols = front ++ symbol :: back ∧ consumed = front.length + 1 ∧
      feed react state front = .more before ∧ P before ∧ react before symbol = .stop state' := by
  induction symbols generalizing state consumed with
  | nil => cases h
  | cons symbol symbols ih =>
  rw [feed] at h
  cases hreact : react state symbol with
  | fail error => simp [hreact] at h
  | stop state'' =>
    simp only [hreact, Progress.stopped.injEq] at h
    obtain ⟨rfl, rfl⟩ := h
    exact ⟨[], symbol, symbols, state, rfl, rfl, rfl, hst, hreact⟩
  | next state'' =>
  simp only [hreact] at h
  cases hrest : feed react state'' symbols with
  | more final => simp [hrest] at h
  | failed error => simp [hrest] at h
  | stopped final n =>
  simp only [hrest, Progress.shift_stopped, Progress.stopped.injEq] at h
  obtain ⟨rfl, rfl⟩ := h
  obtain ⟨front, last, back, before, rfl, rfl, hfront, hbefore, hstop⟩ :=
    ih (hnext hst hreact) hrest
  refine ⟨symbol :: front, last, back, before, rfl, ?_, ?_, hbefore, hstop⟩
  · rw [length_cons]
    omega
  rw [feed_next hreact, hfront, Progress.shift_more]

/-- A run fails at a step from a state that it keeps. -/
theorem feed_failed_invariant (hst : P state) (h : feed react state symbols = .failed error) :
    ∃ before symbol, P before ∧ react before symbol = .fail error := by
  induction symbols generalizing state with
  | nil => cases h
  | cons symbol symbols ih =>
  rw [feed] at h
  cases hreact : react state symbol with
  | stop state'' => simp [hreact] at h
  | fail error' =>
    simp only [hreact, Progress.failed.injEq] at h
    exact ⟨state, symbol, hst, by rw [hreact, h]⟩
  | next state'' =>
  simp only [hreact] at h
  cases hrest : feed react state'' symbols with
  | more final => simp [hrest] at h
  | stopped final n => simp [hrest] at h
  | failed error' =>
  simp only [hrest, Progress.shift_failed, Progress.failed.injEq] at h
  rw [h] at hrest
  exact ih (hnext hst hreact) hrest

end

/-- Where a run has stopped depends on what it has read. -/
theorem feed_take_of_stopped (h : feed react state symbols = .stopped state' n) :
    n ≤ symbols.length ∧ feed react state (symbols.take n) = .stopped state' n := by
  obtain ⟨front, symbol, back, before, rfl, rfl, hfront, -, hstop⟩ :=
    feed_stopped_invariant (P := fun _ => True) (fun _ _ => trivial) trivial h
  refine ⟨by simp, ?_⟩
  have htake : (front ++ symbol :: back).take (front.length + 1) = front ++ [symbol] := by
    rw [take_length_add_append]
    rfl
  rw [htake, feed_append_of_more hfront, feed_stop hstop, Progress.shift_stopped]

/-! ## Phases -/

/-- A phase of a machine is a machine of its own; `k` says what happens where it stops. -/
def Reaction.embed {τ ε' : Type} (f : τ → σ) (k : τ → Reaction σ ε) (g : ε' → ε) :
    Reaction τ ε' → Reaction σ ε
  | .next state => .next (f state)
  | .stop state => k state
  | .fail error => .fail (g error)

theorem feed_phase {τ ε' : Type} {phase : τ → α → Reaction τ ε'} {f : τ → σ}
    {k : τ → Reaction σ ε} {g : ε' → ε}
    (hreact : ∀ state symbol, react (f state) symbol = (phase state symbol).embed f k g)
    (state : τ) (symbols : List α) :
    feed react (f state) symbols =
      match feed phase state symbols with
      | .more state' => .more (f state')
      | .failed error => .failed (g error)
      | .stopped state' n =>
        match k state' with
        | .next state'' => (feed react state'' (symbols.drop n)).shift n
        | .stop state'' => .stopped state'' n
        | .fail error => .failed error := by
  induction symbols generalizing state with
  | nil => rfl
  | cons symbol symbols ih =>
  rw [feed, feed, hreact]
  cases phase state symbol with
  | fail error => rfl
  | stop state' =>
    simp only [Reaction.embed]
    cases k state' with
    | next state'' => rfl
    | stop state'' => rfl
    | fail error => rfl
  | next state' =>
  rw [Reaction.embed]
  simp only
  rw [ih]
  cases feed phase state' symbols with
  | more state'' => rfl
  | failed error => rfl
  | stopped state'' n =>
  rw [Progress.shift_stopped]
  simp only [Nat.add_comm 1 n, drop_succ_cons]
  cases k state'' with
  | next final => simp only [Progress.shift_shift, Nat.add_comm 1 n]
  | stop final => simp only [Progress.shift_stopped, Nat.add_comm 1 n]
  | fail error => rfl

/-! ## Machines of which one fails sooner -/

/-- Two machines make the same steps, except that the first one fails where the second one goes on
to a state from which it can only fail. -/
structure FailsSooner (react react' : σ → α → Reaction σ ε) (Doomed : σ → Prop) : Prop where
  step : ∀ state symbol, react state symbol = react' state symbol ∨
    (∃ error, react state symbol = .fail error) ∧
      ∃ state', react' state symbol = .next state' ∧ Doomed state'
  doomed : ∀ {state symbol}, Doomed state →
    (∃ error, react' state symbol = .fail error) ∨
      ∃ state', react' state symbol = .next state' ∧ Doomed state'

namespace FailsSooner

variable {react' : σ → α → Reaction σ ε} {Doomed : σ → Prop} (H : FailsSooner react react' Doomed)
include H

theorem feed_ne_stopped (hst : Doomed state) : feed react' state symbols ≠ .stopped final n := by
  induction symbols generalizing state n with
  | nil => exact nofun
  | cons symbol symbols ih =>
  rcases H.doomed hst with ⟨error, hfail⟩ | ⟨state', hnext, hst'⟩
  · rw [feed_fail hfail]
    exact nofun
  intro h
  rw [feed_next hnext] at h
  cases hrest : feed react' state' symbols with
  | more state'' => simp [hrest] at h
  | failed error => simp [hrest] at h
  | stopped state'' m =>
  simp only [hrest, Progress.shift_stopped, Progress.stopped.injEq] at h
  exact ih hst' (hrest.trans (by rw [h.1]))

theorem feed_stopped_iff (state final : σ) (symbols : List α) (n : Nat) :
    feed react state symbols = .stopped final n ↔ feed react' state symbols = .stopped final n := by
  induction symbols generalizing state n with
  | nil => rfl
  | cons symbol symbols ih =>
  rcases H.step state symbol with heq | ⟨⟨error, hfail⟩, state', hnext, hst'⟩
  · rw [feed, feed, heq]
    cases react' state symbol with
    | stop state' => rfl
    | fail error => rfl
    | next state' =>
    have hshift : ∀ progress : Progress σ ε, progress.shift 1 = .stopped final n ↔
        ∃ m, n = 1 + m ∧ progress = .stopped final m := by
      intro progress
      cases progress with
      | more state'' => simp
      | failed error => simp
      | stopped state'' m =>
      simp only [Progress.shift_stopped, Progress.stopped.injEq]
      constructor
      · rintro ⟨rfl, rfl⟩
        exact ⟨m, rfl, rfl, rfl⟩
      rintro ⟨m', rfl, rfl, rfl⟩
      exact ⟨rfl, rfl⟩
    simp only [hshift, ih]
  rw [feed_fail hfail]
  constructor
  · exact nofun
  intro h
  rw [feed_next hnext] at h
  cases hrest : feed react' state' symbols with
  | more state'' => simp [hrest] at h
  | failed error => simp [hrest] at h
  | stopped state'' m => exact absurd hrest (H.feed_ne_stopped hst')

end FailsSooner

end Galay.Lib
