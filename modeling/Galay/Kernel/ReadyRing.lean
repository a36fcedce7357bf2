import Mathlib.Data.List.Basic

/-!
# The local ready ring (`galay-kernel/core/io_scheduler.hpp`)

`setStealingEnabled(false)` leaves `ChaseLevTaskRing` to its owner: `steal_front` refuses, and the
owner pushes and pops at the back with plain loads and stores. A slot holds an encoded entry, or
zero. What the ring holds for its owner is `contents`.
-/

namespace Galay.Kernel

open List

/-- A ready entry; `none` is the invalid one. -/
abbrev ReadyEntry (α : Type*) := Option α

variable {α : Type*}

/-- A ring with its positions in range. Between them no slot is zero. -/
structure ChaseLevTaskRing (α : Type*) where
  slots : Fin 256 → ReadyEntry α
  head : Nat
  tail : Nat
  head_le : head ≤ tail
  size_le : tail - head ≤ 256
  filled : ∀ i, head ≤ i → i < tail → (slots (Fin.ofNat 256 i)).isSome

namespace ChaseLevTaskRing

def kCapacity : Nat := 256

def new : ChaseLevTaskRing α where
  slots _ := none
  head := 0
  tail := 0
  head_le := Nat.le_refl 0
  size_le := Nat.zero_le _
  filled _ _ hlt := absurd hlt (Nat.not_lt_zero _)

variable (ring : ChaseLevTaskRing α)

def size : Nat := ring.tail - ring.head

def remainingCapacity : Nat := if kCapacity ≤ ring.size then 0 else kCapacity - ring.size

def empty : Bool := ring.size = 0

theorem ofNat_ne_of_lt (hlt : i < j) (hnear : j < i + 256) : Fin.ofNat 256 i ≠ Fin.ofNat 256 j := by
  intro h
  have hmod : i % 256 = j % 256 := congrArg Fin.val h
  omega

/-- The ring with an entry stored at the tail. -/
def stored (task : α) (hroom : ring.tail - ring.head < 256) : ChaseLevTaskRing α where
  slots := Function.update ring.slots (Fin.ofNat 256 ring.tail) (some task)
  head := ring.head
  tail := ring.tail + 1
  head_le := Nat.le_succ_of_le ring.head_le
  size_le := by omega
  filled := by
    intro i hhead htail
    rcases Nat.lt_or_eq_of_le (Nat.le_of_lt_succ htail) with hlt | rfl
    · rw [Function.update_of_ne (ofNat_ne_of_lt hlt (by omega))]
      exact ring.filled i hhead hlt
    rw [Function.update_self]
    rfl

/-- The ring with the slot before the tail exchanged for zero. -/
def exchanged (hhead : ring.head ≤ ring.tail - 1) : ChaseLevTaskRing α where
  slots := Function.update ring.slots (Fin.ofNat 256 (ring.tail - 1)) none
  head := ring.head
  tail := ring.tail - 1
  head_le := hhead
  size_le := Nat.le_trans (by omega) ring.size_le
  filled := by
    intro i hi hlt
    have hsize := ring.size_le
    rw [Function.update_of_ne (ofNat_ne_of_lt hlt (by omega))]
    exact ring.filled i hi (by omega)

/-- The ring after the push, if there was room. An invalid entry is not pushed. -/
def push_back (entry : ReadyEntry α) : Option (ChaseLevTaskRing α) :=
  match entry with
  | none => none
  | some task =>
    if hfull : kCapacity ≤ ring.tail - ring.head then none
    else some (ring.stored task (Nat.lt_of_not_le hfull))

/-- The entry at the back and the ring without it. -/
def pop_back : Option (α × ChaseLevTaskRing α) :=
  if ring.tail = 0 then none
  else if hhead : ring.tail - 1 < ring.head then none
  else
    match ring.slots (Fin.ofNat 256 (ring.tail - 1)) with
    | none => none
    | some task => some (task, ring.exchanged (Nat.le_of_not_lt hhead))

/-! ## What a ring holds -/

/-- The entries from the oldest on. -/
def contents : List α :=
  (List.range' ring.head ring.size).filterMap fun i => ring.slots (Fin.ofNat 256 i)

variable {ring}

theorem length_contents : ring.contents.length = ring.size := by
  have hall : ∀ i ∈ List.range' ring.head ring.size,
      (ring.slots (Fin.ofNat 256 i)).isSome := by
    intro i hi
    rw [mem_range'_1, size] at hi
    have hle := ring.head_le
    exact ring.filled i hi.1 (by omega)
  rw [contents, length_filterMap_eq_countP, List.countP_eq_length.2 hall, length_range']

theorem remainingCapacity_eq : ring.remainingCapacity = 256 - ring.contents.length := by
  rw [length_contents, remainingCapacity, kCapacity]
  split <;> omega

theorem empty_eq : ring.empty = decide (ring.contents = []) := by
  rw [empty, ← length_contents]
  simp only [length_eq_zero_iff]

theorem length_contents_le : ring.contents.length ≤ 256 := by
  rw [length_contents]
  exact ring.size_le

theorem contents_stored (task : α) (hroom : ring.tail - ring.head < 256) :
    (ring.stored task hroom).contents = ring.contents ++ [task] := by
  have hle := ring.head_le
  have hsize : (ring.stored task hroom).size = ring.size + 1 := by
    change ring.tail + 1 - ring.head = ring.tail - ring.head + 1
    omega
  have hlast : ring.head + ring.size = ring.tail := by
    rw [size]
    omega
  have hkeep : ∀ i ∈ List.range' ring.head ring.size,
      (ring.stored task hroom).slots (Fin.ofNat 256 i) = ring.slots (Fin.ofNat 256 i) := by
    intro i hi
    rw [mem_range'_1] at hi
    exact Function.update_of_ne (ofNat_ne_of_lt (by omega) (by rw [size] at hi; omega)) _ _
  have hnew : (ring.stored task hroom).slots (Fin.ofNat 256 ring.tail) = some task :=
    Function.update_self ..
  rw [contents, hsize, show (ring.stored task hroom).head = ring.head from rfl,
    range'_1_concat, filterMap_append, filterMap_congr hkeep, hlast, filterMap_cons, hnew]
  rfl

theorem contents_exchanged (hhead : ring.head ≤ ring.tail - 1) (htail : ring.tail ≠ 0)
    (htask : ring.slots (Fin.ofNat 256 (ring.tail - 1)) = some task) :
    ring.contents = (ring.exchanged hhead).contents ++ [task] := by
  have hcap := ring.size_le
  have hsize : ring.size = (ring.exchanged hhead).size + 1 := by
    change ring.tail - ring.head = ring.tail - 1 - ring.head + 1
    omega
  have hlast : ring.head + (ring.exchanged hhead).size = ring.tail - 1 := by
    change ring.head + (ring.tail - 1 - ring.head) = ring.tail - 1
    omega
  have hkeep : ∀ i ∈ List.range' ring.head (ring.exchanged hhead).size,
      ring.slots (Fin.ofNat 256 i) = (ring.exchanged hhead).slots (Fin.ofNat 256 i) := by
    intro i hi
    rw [mem_range'_1] at hi
    exact (Function.update_of_ne (ofNat_ne_of_lt (by omega) (by omega)) _ _).symm
  rw [contents, hsize, range'_1_concat, filterMap_append, filterMap_congr hkeep,
    hlast, filterMap_cons, htask]
  rfl

variable (ring)

/-- A push adds the newest entry, and fails on a full ring only. -/
theorem push_back_cases (task : α) :
    (ring.push_back (some task) = none ∧ ring.contents.length = 256) ∨
    ∃ ring', ring.push_back (some task) = some ring' ∧ ring.contents.length < 256 ∧
      ring'.contents = ring.contents ++ [task] := by
  have hsize := ring.size_le
  simp only [push_back, kCapacity, length_contents]
  by_cases hfull : 256 ≤ ring.tail - ring.head
  · exact .inl ⟨dif_pos hfull, Nat.le_antisymm hsize hfull⟩
  exact .inr ⟨_, dif_neg hfull, Nat.lt_of_not_le hfull, contents_stored task _⟩

/-- A pop takes the newest entry, and fails on an empty ring only. -/
theorem pop_back_cases :
    (ring.pop_back = none ∧ ring.contents = []) ∨
    ∃ task ring', ring.pop_back = some (task, ring') ∧
      ring.contents = ring'.contents ++ [task] := by
  unfold pop_back
  rcases Nat.eq_or_lt_of_le ring.head_le with heq | hlt
  · refine .inl ⟨?_, ?_⟩
    · by_cases htail : ring.tail = 0
      · rw [if_pos htail]
      rw [if_neg htail, dif_pos (by omega)]
    rw [← length_eq_zero_iff, length_contents, size]
    omega
  obtain ⟨task, htask⟩ := Option.isSome_iff_exists.1
    (ring.filled (ring.tail - 1) (by omega) (by omega))
  refine .inr ⟨task, ring.exchanged (by omega), ?_, contents_exchanged _ (by omega) htask⟩
  rw [if_neg (by omega), dif_neg (by omega)]
  simp only [htask]

end ChaseLevTaskRing

end Galay.Kernel
