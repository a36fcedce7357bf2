import Mathlib.Data.List.Basic

/-!
# Draining a queue with an end mark

A log of a sender is a list of items, `none` where the end was announced. `Drains log before
after`: the log takes the items from the front of `before` and leaves `after`, and announces the
end only when everything has gone out. Such logs compose (`Drains.trans`); a queue may stand before
or behind the part that is drained (`Drains.prepend`, `Drains.extend`).
-/

namespace Galay.Lib

open List

variable {α : Type} {log log' : List (Option α)} {x y z : List α}

/-- The items of a log. -/
def items (log : List (Option α)) : List α := log.filterMap id

@[simp] theorem items_nil : items ([] : List (Option α)) = [] := rfl

@[simp] theorem items_append (log log' : List (Option α)) :
    items (log ++ log') = items log ++ items log' := filterMap_append ..

@[simp] theorem items_map_some (l : List α) : items (l.map some) = l := by
  rw [items, filterMap_map]
  exact filterMap_some

structure Drains (log : List (Option α)) (before after : List α) : Prop where
  items_eq : items log ++ after = before
  end_last : ∀ front back, log = front ++ none :: back → items front = before

namespace Drains

theorem nil (x : List α) : Drains [] x x :=
  ⟨rfl, fun front back h => absurd h (by cases front <;> exact nofun)⟩

theorem eq_of_nil (h : Drains [] x y) : x = y := h.items_eq.symm

theorem push (l rest : List α) : Drains (l.map some) (l ++ rest) rest where
  items_eq := by rw [items_map_some]
  end_last front back heq := by
    have hmem : none ∈ l.map some := by
      rw [heq]
      exact mem_append_right _ (mem_cons_self ..)
    obtain ⟨a, -, ha⟩ := List.mem_map.1 hmem
    cases ha

theorem close : Drains [none] ([] : List α) [] where
  items_eq := rfl
  end_last front back heq := by
    cases front with
    | nil => rfl
    | cons item front =>
    rw [cons_append, List.cons.injEq] at heq
    exact absurd heq.2.symm (append_ne_nil_of_right_ne_nil _ (cons_ne_nil _ _))

section

variable (h : Drains log x y)

include h

theorem trans (h' : Drains log' y z) : Drains (log ++ log') x z where
  items_eq := by rw [items_append, append_assoc, h'.items_eq, h.items_eq]
  end_last front back heq := by
    rcases List.append_eq_append_iff.1 heq with ⟨mid, hfront, htail⟩ | ⟨mid, hlog, htail⟩
    · rw [hfront, items_append, h'.end_last mid back htail, h.items_eq]
    cases mid with
    | nil =>
      have hlog' : log' = [] ++ none :: back := by simpa using htail.symm
      rw [append_nil] at hlog
      rw [← hlog, ← h.items_eq, ← h'.end_last [] back hlog', items_nil, append_nil]
    | cons item mid =>
    rw [cons_append, List.cons.injEq] at htail
    obtain ⟨rfl, -⟩ := htail
    exact h.end_last front mid hlog

/-- Something in front of the queue: it must be nothing when there is a log. -/
theorem prepend (hor : log = [] ∨ front = []) :
    Drains log (front ++ x) (front ++ y) := by
  rcases hor with rfl | rfl
  · rw [h.eq_of_nil]
    exact .nil _
  exact h

/-- Something behind the queue: it must be nothing when the end is announced. -/
theorem extend (hend : none ∈ log → back = []) :
    Drains log (x ++ back) (y ++ back) where
  items_eq := by rw [← append_assoc, h.items_eq]
  end_last front tail heq := by
    have hmem : none ∈ log := by
      rw [heq]
      exact mem_append_right _ (mem_cons_self ..)
    rw [hend hmem, append_nil]
    exact h.end_last front tail heq

theorem isPrefix : items log <+: x := ⟨y, h.items_eq⟩

end

end Drains

end Galay.Lib
