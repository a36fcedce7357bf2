import Mathlib.Algebra.Order.BigOperators.Group.List
import Mathlib.Algebra.Order.Ring.Nat

/-!
# Deficit round robin under a common budget

Clients of an arbitrary type take turns. `share k s` is what client `s` gets in its first `k`
turns when the budget does not run out, `need s` what it wants in all. A client finishes under a
budget when there is a round in which its share covers its need and everything that is served up
to its turn in that round fits (`Finishes`). `finishes_iff` takes one round off: a client
finishes in the first round, or after it under the budget that is left.
-/

namespace Galay.Lib.RoundRobin

section Share

/-- What a client gets in its first `k` turns: each turn adds the quantum to the deficit, and no
more than the deficit is served. -/
def deficitShare (need deficit quantum : Nat) : Nat → Nat
  | 0 => 0
  | k + 1 => min need (deficit + (k + 1) * quantum)

/-- A turn leaves a client whose shares are the remaining ones. -/
theorem deficitShare_succ (hm : m = deficitShare need deficit quantum 1) (k : Nat) :
    deficitShare need deficit quantum (k + 1) =
      m + deficitShare (need - m) (deficit + quantum - m) quantum k := by
  cases k with
  | zero => exact hm.symm
  | succ k =>
  have hq : (k + 1 + 1) * quantum = quantum + (k + 1) * quantum := by rw [Nat.succ_mul]; omega
  simp only [deficitShare, Nat.zero_add, Nat.one_mul] at hm ⊢
  rw [hq]
  omega

theorem deficitShare_zero_need (deficit quantum k : Nat) : deficitShare 0 deficit quantum k = 0 := by
  cases k with
  | zero => rfl
  | succ k => exact Nat.zero_min _

theorem deficitShare_one_le (need deficit quantum k : Nat) :
    deficitShare need deficit quantum 1 ≤ deficitShare need deficit quantum (k + 1) := by
  rw [deficitShare_succ rfl k]
  exact Nat.le_add_right _ _

theorem deficitShare_le (need deficit quantum k : Nat) :
    deficitShare need deficit quantum k ≤ need := by
  cases k with
  | zero => exact Nat.zero_le _
  | succ k => exact Nat.min_le_left _ _

end Share

variable {σ : Type} (share : Nat → σ → Nat) (need : σ → Nat)

/-- `s'` is the client `s` after a turn that the budget did not cut short. -/
structure Turn (s s' : σ) : Prop where
  share_succ : ∀ k, share (k + 1) s = share 1 s + share k s'
  need_eq : need s = share 1 s + need s'

/-- The client between `pre` and `post` gets all it needs from a budget. -/
def Finishes (budget : Nat) (pre : List σ) (s : σ) (post : List σ) : Prop :=
  ∃ round, need s ≤ share (round + 1) s ∧
    (pre.map (share (round + 1))).sum + share (round + 1) s + (post.map (share round)).sum ≤ budget

variable {share need}

theorem sum_share_succ (h : List.Forall₂ (Turn share need) l l') (k : Nat) :
    (l.map (share (k + 1))).sum = (l.map (share 1)).sum + (l'.map (share k)).sum := by
  induction h with
  | nil => rfl
  | cons hturn _ ih =>
  simp only [List.map_cons, List.sum_cons, ih, hturn.share_succ k]
  omega

theorem Finishes.of_first (hzero : ∀ s, share 0 s = 0)
    (hneed : need s ≤ share 1 s) (hsum : (pre.map (share 1)).sum + share 1 s ≤ budget) :
    Finishes share need budget pre s post := by
  have hnone : (post.map (share 0)).sum = 0 := by
    rw [List.sum_eq_zero]
    simp [hzero]
  exact ⟨0, hneed, by simp only [Nat.zero_add]; omega⟩

/-- One round off: the client finishes in it, or under what the round leaves of the budget. -/
theorem finishes_iff (hzero : ∀ s, share 0 s = 0) (hpre : List.Forall₂ (Turn share need) pre pre')
    (hs : Turn share need s s') (hpost : List.Forall₂ (Turn share need) post post') :
    Finishes share need budget pre s post ↔
      (need s ≤ share 1 s ∧ (pre.map (share 1)).sum + share 1 s ≤ budget) ∨
      ∃ rest, budget = (pre.map (share 1)).sum + share 1 s + (post.map (share 1)).sum + rest ∧
        Finishes share need rest pre' s' post' := by
  constructor
  · rintro ⟨round, hneed, hsum⟩
    cases round with
    | zero =>
      left
      simp only [Nat.zero_add] at hneed hsum
      exact ⟨hneed, by omega⟩
    | succ round =>
    right
    rw [sum_share_succ hpre, sum_share_succ hpost, hs.share_succ] at hsum
    have hneed' := hs.need_eq
    have hshare := hs.share_succ (round + 1)
    refine ⟨budget - ((pre.map (share 1)).sum + share 1 s + (post.map (share 1)).sum), by omega,
      round, by omega, by omega⟩
  rintro (⟨hneed, hsum⟩ | ⟨rest, rfl, round, hneed, hsum⟩)
  · exact .of_first hzero hneed hsum
  refine ⟨round + 1, ?_, ?_⟩
  · have hneed' := hs.need_eq
    have hshare := hs.share_succ (round + 1)
    omega
  rw [sum_share_succ hpre, sum_share_succ hpost, hs.share_succ]
  omega

/-- A client that finishes under a budget that does not last for one round finishes in it. -/
theorem Finishes.first
    (hmono : ∀ k s, share 1 s ≤ share (k + 1) s) (h : Finishes share need budget pre s post)
    (hlt : budget < (pre.map (share 1)).sum + share 1 s + (post.map (share 1)).sum) :
    need s ≤ share 1 s ∧ (pre.map (share 1)).sum + share 1 s ≤ budget := by
  obtain ⟨round, hneed, hsum⟩ := h
  have hle : ∀ k (l : List σ), (l.map (share 1)).sum ≤ (l.map (share (k + 1))).sum :=
    fun k l => List.sum_le_sum fun s _ => hmono k s
  cases round with
  | zero => exact ⟨hneed, by simp only [Nat.zero_add] at hsum; omega⟩
  | succ round =>
  have hpre := hle (round + 1) pre
  have hpost := hle round post
  have hs := hmono (round + 1) s
  omega

end Galay.Lib.RoundRobin
