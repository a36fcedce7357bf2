import Mathlib.Data.List.Nodup
import Mathlib.Data.List.Perm.Subperm
import Mathlib.Data.Nat.ModEq

/-!
# A counter that wraps, taken modulo

A counter counts up to `M` and starts again; its values are taken modulo `n`. Each `n` of them in a
row are all the residues unless the counter wraps among them and `n` does not divide `M`.
-/

namespace Galay.Lib

open List

variable {M n k : Nat}

/-- The residues that `n` values of the counter give, from the value `k` on. -/
def residues (M n k : Nat) : List Nat := (range n).map fun j => (k + j) % M % n

theorem mod_add_cancel (ha : a < n) (hb : b < n) (h : (k + a) % n = (k + b) % n) : a = b := by
  have hmod : a % n = b % n := Nat.ModEq.add_left_cancel' k h
  rwa [Nat.mod_eq_of_lt ha, Nat.mod_eq_of_lt hb] at hmod

/-- Residues of `n` numbers in a row. -/
theorem perm_residues_of_eq (hn : 0 < n) (h : ∀ j < n, (k + j) % M % n = (k + j) % n) :
    (residues M n k).Perm (range n) := by
  have heq : residues M n k = (range n).map fun j => (k + j) % n :=
    map_congr_left fun j hj => h j (mem_range.1 hj)
  have hnodup : ((range n).map fun j => (k + j) % n).Nodup :=
    List.Nodup.map_on (fun _ ha _ hb hab =>
      mod_add_cancel (mem_range.1 ha) (mem_range.1 hb) hab) nodup_range
  have hsubset : ((range n).map fun j => (k + j) % n) ⊆ range n := by
    intro i hi
    obtain ⟨j, _, rfl⟩ := mem_map.1 hi
    exact mem_range.2 (Nat.mod_lt _ hn)
  rw [heq]
  refine (subperm_of_subset hnodup hsubset).perm_of_length_le ?_
  rw [length_map]

/-- The values on the two sides of a wrap give a residue twice, unless `n` divides `M`. -/
theorem not_nodup_residues (hk : k < M) (hwrap : M < k + n) (hle : n ≤ M) (hdvd : ¬ n ∣ M) :
    ¬ (residues M n k).Nodup := by
  intro hnodup
  have hq : 0 < M % n := Nat.pos_of_ne_zero fun h => hdvd (Nat.dvd_of_mod_eq_zero h)
  have hqn : M % n < n := Nat.mod_lt _ (by omega)
  have hM : n * (M / n) + M % n = M := Nat.div_add_mod M n
  -- The value `M - s` before the wrap and the value `t` behind it, both congruent to `t`.
  obtain ⟨s, hs, hsk, hsq, ht⟩ : ∃ s, 0 < s ∧ s ≤ M - k ∧ s ≤ M % n ∧ M % n - s < n - (M - k) := by
    rcases Nat.le_total (M % n) (M - k) with hmin | hmin
    · exact ⟨M % n, hq, hmin, Nat.le_refl _, by omega⟩
    exact ⟨M - k, by omega, Nat.le_refl _, hmin, by omega⟩
  have hbefore : (k + (M - k - s)) % M % n = M % n - s := by
    have hlt : k + (M - k - s) < M := by omega
    have hval : k + (M - k - s) = M % n - s + n * (M / n) := by omega
    rw [Nat.mod_eq_of_lt hlt, hval, Nat.add_mul_mod_self_left]
    exact Nat.mod_eq_of_lt (by omega)
  have hbehind : (k + (M - k + (M % n - s))) % M % n = M % n - s := by
    have hval : k + (M - k + (M % n - s)) = M % n - s + M := by omega
    have hlt : M % n - s < M := by omega
    rw [hval, Nat.add_mod_right, Nat.mod_eq_of_lt hlt]
    exact Nat.mod_eq_of_lt (by omega)
  have hsame := inj_on_of_nodup_map hnodup (mem_range.2 (by omega : M - k - s < n))
    (mem_range.2 (by omega : M - k + (M % n - s) < n)) (hbefore.trans hbehind.symm)
  omega

theorem perm_residues_iff (hn : 0 < n) (hk : k < M) :
    (residues M n k).Perm (range n) ↔ n ∣ M ∨ k + n ≤ M := by
  constructor
  · intro hperm
    have hle : n ≤ M := by
      have hlast : n - 1 ∈ residues M n k := hperm.symm.subset (mem_range.2 (by omega))
      obtain ⟨j, _, hj⟩ := mem_map.1 hlast
      have hlt : (k + j) % M % n < M := Nat.lt_of_le_of_lt (Nat.mod_le _ _) (Nat.mod_lt _ (by omega))
      omega
    by_contra hneither
    obtain ⟨hdvd, hwrap⟩ := not_or.1 hneither
    exact not_nodup_residues hk (Nat.lt_of_not_le hwrap) hle hdvd
      (hperm.nodup_iff.2 nodup_range)
  rintro (hdvd | hfits)
  · exact perm_residues_of_eq hn fun j _ => Nat.mod_mod_of_dvd _ hdvd
  refine perm_residues_of_eq hn fun j hj => ?_
  rw [Nat.mod_eq_of_lt (show k + j < M by omega)]

end Galay.Lib
