import Mathlib.Logic.Relation

/-!
# Runs of a step relation

An invariant holds in every state that is reached, and a run ends where a measure falls.
-/

namespace Galay.Lib

variable {α : Type*} {step : α → α → Prop} {Inv : α → Prop} {a b : α}

theorem invariant_of_reaches (hstep : ∀ a b, Inv a → step a b → Inv b) (ha : Inv a)
    (h : Relation.ReflTransGen step a b) : Inv b := by
  induction h with
  | refl => exact ha
  | tail _ hlast ih => exact hstep _ _ ih hlast

/-- A run along which a measure falls is not infinite. -/
theorem acc_of_measure (measure : α → Nat) (hstep : ∀ a b, Inv a → step a b → Inv b)
    (hless : ∀ a b, Inv a → step a b → measure b < measure a) (ha : Inv a) :
    Acc (fun b a => step a b) a := by
  induction hn : measure a using Nat.strongRecOn generalizing a with
  | ind n ih =>
  constructor
  intro b hb
  exact ih (measure b) (hn ▸ hless a b ha hb) (hstep a b ha hb) rfl

theorem reaches_of_foldlM {f : α → β → Option α} {list : List β} (h : list.foldlM f a = some b) :
    Relation.ReflTransGen (fun a b => ∃ input, f a input = some b) a b := by
  induction list generalizing a with
  | nil =>
    cases h
    exact .refl
  | cons input list ih =>
  obtain ⟨next, hnext, hrest⟩ := Option.bind_eq_some_iff.1 h
  exact .head ⟨input, hnext⟩ (ih hrest)

theorem foldl_invariant {f : α → β → α} {P : List β → α → Prop}
    (hstep : ∀ a b rest, P (b :: rest) a → P rest (f a b)) {list : List β} (ha : P list a) :
    P [] (list.foldl f a) := by
  induction list generalizing a with
  | nil => exact ha
  | cons b rest ih => exact ih (hstep a b rest ha)

end Galay.Lib
