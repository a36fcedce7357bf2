import Galay.Lib.Bytes

/-!
# Bounded queues

A queue of weighted elements, the newest first, that gives up its oldest elements where the total
weight would exceed a bound.
-/

namespace Galay.Lib.BoundedFifo

variable {α : Type*} (weight : α → Nat)

def total (elements : List α) : Nat := (elements.map weight).sum

/-- The newest elements that have room. -/
def keep (room : Nat) (elements : List α) : List α :=
  if total weight elements ≤ room then elements else keep room elements.dropLast
termination_by elements.length
decreasing_by
  have hne : elements ≠ [] := by
    rintro rfl
    exact absurd (Nat.zero_le room) ‹_›
  rw [List.length_dropLast]
  exact Nat.sub_lt (List.length_pos_of_ne_nil hne) Nat.one_pos

def push (bound : Nat) (elements : List α) (a : α) : List α :=
  if weight a > bound then [] else a :: keep weight (bound - weight a) elements

variable {weight} {room : Nat} {elements : List α}

theorem keep_of_le (h : total weight elements ≤ room) : keep weight room elements = elements := by
  rw [keep, if_pos h]

theorem keep_of_lt (h : ¬ total weight elements ≤ room) :
    keep weight room elements = keep weight room elements.dropLast := by
  rw [keep, if_neg h]

end Galay.Lib.BoundedFifo
