import Mathlib.Data.List.AList

/-!
# Association lists with mapped values
-/

namespace Galay.Lib

universe u v
variable {κ : Type u} {ν : Type v} [DecidableEq κ]

/-- The same keys with other values. -/
def mapValues (f : ν → ν) (m : AList fun _ : κ => ν) : AList fun _ : κ => ν where
  entries := m.entries.map fun entry => ⟨entry.1, f entry.2⟩
  nodupKeys := by
    have hkeys : (m.entries.map fun entry => (⟨entry.1, f entry.2⟩ : Sigma fun _ : κ => ν)).keys =
        m.entries.keys := by
      simp [List.keys]
    rw [List.NodupKeys, hkeys]
    exact m.nodupKeys

theorem lookup_mapValues (f : ν → ν) (m : AList fun _ : κ => ν) (k : κ) :
    (mapValues f m).lookup k = (m.lookup k).map f := by
  unfold AList.lookup mapValues
  dsimp only
  induction m.entries with
  | nil => rfl
  | cons entry entries ih =>
  obtain ⟨k', v⟩ := entry
  by_cases h : k = k'
  · subst h
    simp
  have hmapped := List.dlookup_cons_ne (β := fun _ : κ => ν)
    (entries.map fun entry => ⟨entry.1, f entry.2⟩) ⟨k', f v⟩ h
  rw [List.dlookup_cons_ne (β := fun _ : κ => ν) entries ⟨k', v⟩ h, ← ih]
  exact hmapped

theorem lookup_of_not_any {p : ν → Bool} {m : AList fun _ : κ => ν}
    (h : ¬ (m.entries.any fun entry => p entry.2) = true) (hlook : m.lookup k = some v) :
    p v = false := by
  have hmem : (⟨k, v⟩ : Sigma fun _ : κ => ν) ∈ m.entries := AList.mem_lookup_iff.1 hlook
  exact Bool.eq_false_iff.2 fun hp => h (List.any_eq_true.2 ⟨⟨k, v⟩, hmem, hp⟩)

end Galay.Lib
