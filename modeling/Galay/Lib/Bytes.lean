import Mathlib.Data.Nat.Bitwise
import Mathlib.Data.List.Basic

/-!
# Byte strings

Byte strings are lists of `UInt8`. The lemmas of this file turn the bit operations of byte
oriented code into arithmetic: a mask of low bits is a remainder, an `or` with disjoint bits is
a sum. Nothing here depends on a particular protocol.
-/

namespace Galay

abbrev Bytes := List UInt8

instance : LawfulBEq Bytes := inferInstanceAs (LawfulBEq (List UInt8))

/-- The bytes of an ASCII literal. -/
def ascii (s : String) : Bytes := s.toList.map fun c => UInt8.ofNat c.toNat

namespace Lib

/-- `UInt8.toNat_ofNat_of_lt` with the bound as a numeral. -/
theorem toNat_byte (h : n < 256) : (UInt8.ofNat n).toNat = n :=
  UInt8.toNat_ofNat_of_lt h

/-- A value below `2 ^ k` joined to a multiple of `2 ^ k` is a sum. -/
theorem or_eq_add (ha : 2 ^ k ∣ a) (hv : v < 2 ^ k) : a ||| v = a + v := by
  obtain ⟨q, rfl⟩ := ha
  exact (Nat.two_pow_add_eq_or_of_lt hv q).symm

theorem and_pred_eq_mod (v k : Nat) : v &&& (2 ^ k - 1) = v % 2 ^ k :=
  Nat.and_two_pow_sub_one_eq_mod v k

/-! ## Tests of the leading bits of a byte -/

private theorem leading_bits : ∀ n : Fin 256,
    (UInt8.ofNat n &&& 0x80 = 0 ↔ n.val < 128) ∧
    (n.val < 128 → (UInt8.ofNat n &&& 0x40 = 0 ↔ n.val < 64)) ∧
    (n.val < 64 → (UInt8.ofNat n &&& 0x20 = 0 ↔ n.val < 32)) := by
  decide +kernel

theorem and_80_eq_zero (b : UInt8) : b &&& 0x80 = 0 ↔ b.toNat < 128 := by
  simpa using (leading_bits ⟨b.toNat, b.toNat_lt⟩).1

theorem and_40_eq_zero {b : UInt8} (h : b.toNat < 128) : b &&& 0x40 = 0 ↔ b.toNat < 64 := by
  simpa [h] using (leading_bits ⟨b.toNat, b.toNat_lt⟩).2.1

theorem and_20_eq_zero {b : UInt8} (h : b.toNat < 64) : b &&& 0x20 = 0 ↔ b.toNat < 32 := by
  simpa [h] using (leading_bits ⟨b.toNat, b.toNat_lt⟩).2.2

theorem toNat_and_7F (b : UInt8) : (b &&& 0x7F).toNat = b.toNat % 128 := by
  rw [UInt8.toNat_and]
  exact and_pred_eq_mod b.toNat 7

end Lib

end Galay
