import Galay.Lib.BitString

/-!
# Prefix codes
-/

namespace Galay.Lib

open List

variable {α : Type*} {code : α → Bits}

/-- No code stands at the front of another. -/
def PrefixFree (code : α → Bits) : Prop := ∀ a b, code a <+: code b → a = b

/-- A padding in which no symbol can be read. -/
def Codeless (code : α → Bits) (padding : Bits) : Prop := ∀ a, ¬ code a <+: padding

theorem prefix_or_of_append {rest' : Bits}
    (h : front ++ rest = front' ++ rest') : front <+: front' ∨ front' <+: front :=
  prefix_or_prefix_of_prefix ⟨rest, rfl⟩ ⟨rest', h.symm⟩

/-- Symbols that have been read are the first of those that were written. -/
theorem PrefixFree.cancel (hfree : PrefixFree code)
    (hpadding : Codeless code padding) {read : List α} {rest : Bits}
    (h : read.flatMap code ++ rest = written.flatMap code ++ padding) :
    ∃ left, written = read ++ left ∧ rest = left.flatMap code ++ padding := by
  induction read generalizing written with
  | nil => exact ⟨written, rfl, h⟩
  | cons a read ih =>
  rw [flatMap_cons, append_assoc] at h
  cases written with
  | nil => exact absurd ⟨_, h⟩ (hpadding a)
  | cons b written =>
  rw [flatMap_cons, append_assoc] at h
  have hab : a = b := by
    rcases prefix_or_of_append h with hpre | hpre
    · exact hfree a b hpre
    exact (hfree b a hpre).symm
  subst hab
  obtain ⟨left, hleft, hrest⟩ := ih (append_cancel_left h)
  exact ⟨left, by rw [hleft, cons_append], hrest⟩

theorem Codeless.eq_nil (hpadding : Codeless code padding)
    {left : List α} (h : padding = left.flatMap code ++ rest) : left = [] := by
  cases left with
  | nil => rfl
  | cons a left =>
  rw [flatMap_cons, append_assoc] at h
  exact absurd ⟨_, h.symm⟩ (hpadding a)

end Galay.Lib
