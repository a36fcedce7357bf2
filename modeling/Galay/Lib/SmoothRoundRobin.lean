import Mathlib.Algebra.BigOperators.Fin
import Mathlib.Algebra.Order.BigOperators.Group.Finset
import Mathlib.NumberTheory.Harmonic.Defs
import Mathlib.Tactic.Linarith
import Mathlib.Tactic.Ring

/-!
# Smooth weighted round robin

Every index has a weight and a credit. In a round each credit is raised by its weight, and an index
whose credit is then greatest pays the sum of the weights; which of several pays is left open. The
credits sum to zero and stay above minus the sum of the weights, so that after as many rounds as that
sum, when each is a multiple of it, all are zero again. Above they keep to the bound of the game in
which the fullest of some cups is emptied, a harmonic number of times the sum.
-/

namespace Galay.Lib

open Finset

namespace SmoothRoundRobin

variable {ι : Type*} [Fintype ι] {weight credit credit' credit'' : ι → ℤ} {i : ι} {picks : List ι}

/-- The sum of the weights. -/
def total (weight : ι → ℤ) : ℤ := ∑ i, weight i

/-- The round in which `i` pays. -/
structure Round (weight credit : ι → ℤ) (i : ι) (credit' : ι → ℤ) : Prop where
  greatest (j : ι) : credit j + weight j ≤ credit i + weight i
  paid : credit' i = credit i + weight i - total weight
  kept (j : ι) (hne : j ≠ i) : credit' j = credit j + weight j

/-- The credits that rounds from zero lead to. -/
structure Fair (weight credit : ι → ℤ) : Prop where
  sum_eq : ∑ i, credit i = 0
  lower (i : ι) : -total weight < credit i
  upper (A : Finset ι) : ((∑ i ∈ A, credit i : ℤ) : ℚ) ≤
    total weight * (#A * (harmonic (Fintype.card ι) - harmonic #A))

theorem harmonic_le_harmonic (h : m ≤ n) : harmonic m ≤ harmonic n :=
  sum_le_sum_of_subset_of_nonneg (range_subset_range.2 h) fun i _ _ =>
    inv_nonneg.2 (Nat.cast_nonneg (i + 1))

theorem fair_zero (hpos : 0 < total weight) : Fair weight 0 where
  sum_eq := sum_const_zero
  lower _ := neg_neg_of_pos hpos
  upper A := by
    have hle : harmonic #A ≤ harmonic (Fintype.card ι) := harmonic_le_harmonic (card_le_univ A)
    have hzero : ((∑ i ∈ A, (0 : ι → ℤ) i : ℤ) : ℚ) = 0 := by
      rw [Pi.zero_def, sum_const_zero, Int.cast_zero]
    rw [hzero]
    exact mul_nonneg (Int.cast_nonneg (le_of_lt hpos))
      (mul_nonneg (Nat.cast_nonneg _) (sub_nonneg.2 hle))

section

variable (hweight : ∀ i, 0 ≤ weight i)
include hweight

theorem sum_weight_le (A : Finset ι) : ∑ i ∈ A, weight i ≤ total weight :=
  sum_le_univ_sum_of_nonneg hweight

theorem weight_le (i : ι) : weight i ≤ total weight :=
  single_le_sum (fun j _ => hweight j) (mem_univ i)

end

/-- An index whose raised credit is greatest has some. -/
theorem Round.raised_pos (hpos : 0 < total weight) (h : Fair weight credit)
    (r : Round weight credit i credit') : 0 < credit i + weight i := by
  by_contra hle
  have hsum : ∑ j, (credit j + weight j) ≤ 0 :=
    sum_nonpos fun j _ => le_trans (r.greatest j) (not_lt.1 hle)
  rw [sum_add_distrib, h.sum_eq, zero_add] at hsum
  exact absurd hsum (not_le.2 hpos)

section

variable [DecidableEq ι]

theorem Round.apply (r : Round weight credit i credit') (j : ι) :
    credit' j = credit j + weight j - if j = i then total weight else 0 := by
  split
  · next h =>
    rw [h]
    exact r.paid
  next h =>
  rw [sub_zero]
  exact r.kept j h

/-- The bound of a set that the paying index is not in comes from the bound of the set with it. -/
theorem Round.upper_of_notMem (h : Fair weight credit) (hweight : ∀ i, 0 ≤ weight i)
    (r : Round weight credit i credit') (hA : i ∉ A) : ((∑ j ∈ A, credit' j : ℤ) : ℚ) ≤
      total weight * (#A * (harmonic (Fintype.card ι) - harmonic #A)) := by
  have hkept : ∑ j ∈ A, credit' j = ∑ j ∈ A, (credit j + weight j) :=
    sum_congr rfl fun j hj => r.kept j fun h => hA (h ▸ hj)
  -- The paying index has at least the mean of the others.
  have hmean : ((∑ j ∈ A, credit' j : ℤ) : ℚ) ≤ #A * ((credit i + weight i : ℤ) : ℚ) := by
    have hle : ∑ j ∈ A, credit' j ≤ #A • (credit i + weight i) := by
      rw [hkept]
      exact sum_le_card_nsmul A _ _ fun j _ => r.greatest j
    rw [nsmul_eq_mul] at hle
    exact_mod_cast hle
  have hwith : ((credit i + weight i : ℤ) : ℚ) + ((∑ j ∈ A, credit' j : ℤ) : ℚ) ≤
      total weight * ((#A + 1) * (harmonic (Fintype.card ι) - harmonic #A)) := by
    have hupper := h.upper (insert i A)
    have hsum : ∑ j ∈ insert i A, credit j + ∑ j ∈ insert i A, weight j =
        credit i + weight i + ∑ j ∈ A, credit' j := by
      rw [← sum_add_distrib, sum_insert hA, hkept]
    have hweights : ((∑ j ∈ insert i A, weight j : ℤ) : ℚ) ≤ total weight := by
      exact_mod_cast sum_weight_le hweight (insert i A)
    have hcast : ((∑ j ∈ insert i A, credit j : ℤ) : ℚ) + ((∑ j ∈ insert i A, weight j : ℤ) : ℚ) =
        ((credit i + weight i : ℤ) : ℚ) + ((∑ j ∈ A, credit' j : ℤ) : ℚ) := by
      exact_mod_cast hsum
    have hinv : ((#A : ℚ) + 1) * ((#A + 1 : ℕ) : ℚ)⁻¹ = 1 := by
      rw [Nat.cast_add, Nat.cast_one]
      exact mul_inv_cancel₀ (by positivity)
    rw [card_insert_of_notMem hA, harmonic_succ, Nat.cast_add, Nat.cast_one] at hupper
    rw [Nat.cast_add, Nat.cast_one] at hinv
    have hexpand : (total weight : ℚ) * (((#A : ℚ) + 1) * (harmonic (Fintype.card ι) -
        (harmonic #A + ((#A : ℚ) + 1)⁻¹))) =
        total weight * ((#A + 1) * (harmonic (Fintype.card ι) - harmonic #A)) -
          total weight := by
      rw [← sub_sub, mul_sub ((#A : ℚ) + 1), hinv, mul_sub, mul_one]
    rw [hexpand] at hupper
    linarith
  have hsize : (0 : ℚ) < #A + 1 := by positivity
  have hscaled := mul_le_mul_of_nonneg_left hwith (Nat.cast_nonneg (α := ℚ) #A)
  refine le_of_mul_le_mul_left ?_ hsize
  linarith [hscaled, hmean]

theorem Fair.round (hweight : ∀ i, 0 ≤ weight i) (hpos : 0 < total weight)
    (h : Fair weight credit) (r : Round weight credit i credit') : Fair weight credit' where
  sum_eq := by
    simp only [r.apply, sum_sub_distrib, sum_add_distrib, sum_ite_eq', mem_univ, if_true, h.sum_eq]
    rw [zero_add]
    exact sub_self _
  lower j := by
    rcases eq_or_ne j i with rfl | hne
    · have hraised := r.raised_pos hpos h
      rw [r.paid]
      linarith
    rw [r.kept j hne]
    exact lt_of_lt_of_le (h.lower j) (le_add_of_nonneg_right (hweight j))
  upper A := by
    by_cases hA : i ∈ A
    · refine le_trans ?_ (h.upper A)
      have hsum : ∑ j ∈ A, credit' j =
          ∑ j ∈ A, credit j + (∑ j ∈ A, weight j - total weight) := by
        simp only [r.apply, sum_sub_distrib, sum_add_distrib, sum_ite_eq', hA, if_true]
        rw [add_sub_assoc]
      have hle := sum_weight_le hweight A
      rw [hsum]
      exact_mod_cast add_le_of_nonpos_right (sub_nonpos.2 hle)
    exact r.upper_of_notMem h hweight hA

end

theorem Fair.raised_le (hweight : ∀ i, 0 ≤ weight i) (h : Fair weight credit) (i : ι) :
    ((credit i + weight i : ℤ) : ℚ) ≤ total weight * harmonic (Fintype.card ι) := by
  have hupper := h.upper {i}
  have hle : ((weight i : ℤ) : ℚ) ≤ total weight := by exact_mod_cast weight_le hweight i
  rw [sum_singleton, card_singleton, Nat.cast_one, one_mul, harmonic_succ, harmonic_zero] at hupper
  rw [Int.cast_add]
  norm_num at hupper
  linarith

/-! ## Runs -/

/-- The rounds in which the indices of a list pay, one after the other. -/
inductive Rounds (weight : ι → ℤ) : (ι → ℤ) → List ι → (ι → ℤ) → Prop
  | nil {credit : ι → ℤ} : Rounds weight credit [] credit
  | cons {credit credit' credit'' : ι → ℤ} {i : ι} {picks : List ι}
    (h : Round weight credit i credit') (hs : Rounds weight credit' picks credit'') :
    Rounds weight credit (i :: picks) credit''

section

variable [DecidableEq ι]

theorem Rounds.credit_eq (hs : Rounds weight credit picks credit') (j : ι) :
    credit' j = credit j + picks.length * weight j - total weight * picks.count j := by
  induction hs with
  | nil => simp
  | @cons credit credit' credit'' i picks h hs ih =>
  rw [ih, h.apply, List.length_cons, List.count_cons, Nat.cast_add, Nat.cast_add, add_mul, mul_add]
  rcases eq_or_ne j i with rfl | hne
  · rw [if_pos rfl, if_pos (beq_self_eq_true j)]
    push_cast
    ring
  rw [if_neg hne, if_neg fun h => hne (eq_of_beq h).symm]
  push_cast
  ring

theorem Rounds.fair (hweight : ∀ i, 0 ≤ weight i) (hpos : 0 < total weight)
    (hs : Rounds weight credit picks credit') (h : Fair weight credit) : Fair weight credit' := by
  induction hs with
  | nil => exact h
  | cons hround _ ih => exact ih (h.round hweight hpos hround)

theorem Rounds.return_zero (hweight : ∀ i, 0 ≤ weight i) (hpos : 0 < total weight)
    (hs : Rounds weight 0 picks credit) (hlen : (picks.length : ℤ) = total weight) :
    credit = 0 := by
  have hfair := hs.fair hweight hpos (fair_zero hpos)
  have hnonneg : ∀ j, 0 ≤ credit j := by
    intro j
    have heq : credit j = total weight * (weight j - picks.count j) := by
      rw [hs.credit_eq, hlen, Pi.zero_apply, zero_add, mul_sub]
    have hlower := hfair.lower j
    rw [heq] at hlower ⊢
    refine mul_nonneg (le_of_lt hpos) ?_
    by_contra hneg
    have hone : weight j - picks.count j ≤ -1 := by
      have := not_le.1 hneg
      omega
    have hle := mul_le_mul_of_nonneg_left hone (le_of_lt hpos)
    rw [mul_neg_one] at hle
    exact absurd hle (not_le.2 hlower)
  funext j
  exact (sum_eq_zero_iff_of_nonneg fun k _ => hnonneg k).1 hfair.sum_eq j (mem_univ j)

/-- Rounds as many as the sum of the weights that lead back to where they began are shared out by
weight. -/
theorem Rounds.count_eq (hpos : 0 < total weight) (hs : Rounds weight credit picks credit)
    (hlen : (picks.length : ℤ) = total weight) (j : ι) : (picks.count j : ℤ) = weight j := by
  have heq := hs.credit_eq j
  rw [hlen] at heq
  have hzero : total weight * weight j = total weight * picks.count j := by linarith
  exact (mul_left_cancel₀ (ne_of_gt hpos) hzero).symm

end

end SmoothRoundRobin

end Galay.Lib
