import Mathlib.Data.List.Basic

/-!
# Merging intervals

Closed intervals of numbers that come in the order of their lower ends are merged into the last one
where they overlap or touch it. What results covers the same numbers, and its intervals are apart.
-/

namespace Galay.Lib

open List

structure Interval where
  lo : Nat
  hi : Nat
  deriving DecidableEq, Repr

namespace Interval

instance : Membership Nat Interval := ⟨fun interval i => interval.lo ≤ i ∧ i ≤ interval.hi⟩

theorem mem_iff {interval : Interval} : i ∈ interval ↔ interval.lo ≤ i ∧ i ≤ interval.hi := Iff.rfl

/-- A number lies between the first interval and the second. -/
def Apart (first second : Interval) : Prop := first.hi + 1 < second.lo

/-- One interval for two, of which the first begins first. -/
def join (first second : Interval) : Interval := ⟨first.lo, max first.hi second.hi⟩

theorem mem_join {first : Interval} (hle : first.lo ≤ second.lo)
    (htouch : second.lo ≤ first.hi + 1) : i ∈ first.join second ↔ i ∈ first ∨ i ∈ second := by
  simp only [mem_iff, join]
  omega

end Interval

def Covers (intervals : List Interval) (i : Nat) : Prop := ∃ interval ∈ intervals, i ∈ interval

theorem covers_append : Covers (front ++ back) i ↔ Covers front i ∨ Covers back i := by
  constructor
  · rintro ⟨interval, hmem, hi⟩
    rcases List.mem_append.1 hmem with hmem | hmem
    · exact .inl ⟨interval, hmem, hi⟩
    exact .inr ⟨interval, hmem, hi⟩
  rintro (⟨interval, hmem, hi⟩ | ⟨interval, hmem, hi⟩)
  · exact ⟨interval, mem_append_left _ hmem, hi⟩
  exact ⟨interval, mem_append_right _ hmem, hi⟩

theorem covers_singleton : Covers [interval] i ↔ i ∈ interval := by
  constructor
  · rintro ⟨interval', hmem, hi⟩
    rw [mem_singleton] at hmem
    exact hmem ▸ hi
  intro hi
  exact ⟨interval, mem_singleton_self _, hi⟩

theorem covers_of_perm (h : intervals.Perm intervals')
    : Covers intervals i ↔ Covers intervals' i := by
  constructor
  · rintro ⟨interval, hmem, hi⟩
    exact ⟨interval, h.mem_iff.1 hmem, hi⟩
  rintro ⟨interval, hmem, hi⟩
  exact ⟨interval, h.mem_iff.2 hmem, hi⟩

/-- The next interval joins the last one, or comes behind it. -/
def mergeStep (merged : List Interval) (interval : Interval) : List Interval :=
  match merged.getLast? with
  | none => [interval]
  | some tail =>
    if interval.lo ≤ tail.hi + 1 then merged.dropLast ++ [tail.join interval]
    else merged ++ [interval]

/-- Merged intervals, none of which begins behind `bound`. -/
structure Merged (merged : List Interval) (bound : Nat) : Prop where
  apart : merged.Pairwise Interval.Apart
  bound : ∀ tail, merged.getLast? = some tail → tail.lo ≤ bound

variable {bound : Nat}

theorem Merged.covers_mergeStep (h : Merged merged bound) (hbound : bound ≤ interval.lo) :
    Covers (mergeStep merged interval) i ↔ Covers merged i ∨ i ∈ interval := by
  rcases eq_nil_or_concat' merged with rfl | ⟨before, tail, rfl⟩
  · rw [mergeStep, getLast?_nil]
    dsimp only
    rw [covers_singleton]
    exact ⟨.inr, fun h => h.resolve_left nofun⟩
  have hlast : (before ++ [tail]).getLast? = some tail := getLast?_concat
  have hlo := Nat.le_trans (h.bound tail hlast) hbound
  rw [mergeStep, hlast]
  dsimp only
  split
  · next htouch =>
    rw [dropLast_concat, covers_append, covers_append, covers_singleton, covers_singleton,
      Interval.mem_join hlo htouch, or_assoc]
  rw [covers_append, covers_singleton]

theorem Merged.mergeStep (h : Merged merged bound) (hbound : bound ≤ interval.lo) :
    Merged (mergeStep merged interval) interval.lo := by
  rcases eq_nil_or_concat' merged with rfl | ⟨before, tail, rfl⟩
  · refine ⟨pairwise_singleton _ _, fun tail hlast => ?_⟩
    obtain rfl : interval = tail := Option.some.inj hlast
    exact Nat.le_refl _
  have hlast : (before ++ [tail]).getLast? = some tail := getLast?_concat
  have hlo := Nat.le_trans (h.bound tail hlast) hbound
  obtain ⟨hbefore, -, htail⟩ := List.pairwise_append.1 h.apart
  rw [Galay.Lib.mergeStep, hlast]
  dsimp only
  split
  · rw [dropLast_concat]
    refine ⟨List.pairwise_append.2 ⟨hbefore, pairwise_singleton _ _, ?_⟩, fun last hlast' => ?_⟩
    · intro first hfirst second hsecond
      rw [mem_singleton] at hsecond
      have happart := htail first hfirst tail (mem_singleton_self _)
      rw [hsecond]
      exact happart
    rw [getLast?_concat] at hlast'
    obtain rfl : tail.join interval = last := Option.some.inj hlast'
    exact hlo
  next hbehind =>
  refine ⟨List.pairwise_append.2 ⟨h.apart, pairwise_singleton _ _, ?_⟩, fun last hlast' => ?_⟩
  · intro first hfirst second hsecond
    rw [mem_singleton] at hsecond
    rw [hsecond]
    rcases List.mem_append.1 hfirst with hfirst | hfirst
    · have happart := htail first hfirst tail (mem_singleton_self _)
      unfold Interval.Apart at happart ⊢
      omega
    rw [mem_singleton] at hfirst
    rw [hfirst]
    unfold Interval.Apart
    omega
  rw [getLast?_concat] at hlast'
  obtain rfl : interval = last := Option.some.inj hlast'
  exact Nat.le_refl _

theorem Merged.foldl (h : Merged merged bound)
    (hsorted : intervals.Pairwise fun first second => first.lo ≤ second.lo)
    (hbound : ∀ interval ∈ intervals, bound ≤ interval.lo) :
    (∃ bound', Merged (intervals.foldl Lib.mergeStep merged) bound') ∧
      ∀ i, Covers (intervals.foldl Lib.mergeStep merged) i ↔ Covers merged i ∨ Covers intervals i := by
  induction intervals generalizing merged bound with
  | nil => exact ⟨⟨bound, h⟩, fun i => ⟨.inl, fun h => h.resolve_right nofun⟩⟩
  | cons interval intervals ih =>
  obtain ⟨hfirst, hrest⟩ := List.pairwise_cons.1 hsorted
  have hle := hbound interval (mem_cons_self ..)
  obtain ⟨hmerged, hcovers⟩ := ih (h.mergeStep hle) hrest hfirst
  refine ⟨hmerged, fun i => ?_⟩
  rw [foldl_cons, hcovers i, h.covers_mergeStep hle, or_assoc, ← covers_singleton,
    ← covers_append, singleton_append]

theorem foldl_mergeStep (hsorted : intervals.Pairwise fun first second => first.lo ≤ second.lo) :
    (intervals.foldl mergeStep []).Pairwise Interval.Apart ∧
      ∀ i, Covers (intervals.foldl mergeStep []) i ↔ Covers intervals i := by
  have hnone : Merged [] 0 := ⟨List.Pairwise.nil, nofun⟩
  obtain ⟨⟨bound, hmerged⟩, hcovers⟩ := hnone.foldl hsorted fun _ _ => Nat.zero_le _
  refine ⟨hmerged.apart, fun i => (hcovers i).trans ⟨fun h => h.resolve_left nofun, .inr⟩⟩

end Galay.Lib
