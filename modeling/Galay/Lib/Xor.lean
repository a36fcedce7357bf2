import Galay.Lib.Bytes

/-!
# Exclusive or of words and of byte strings

A word that is copied from memory, combined with another by exclusive or and copied back changes
each of its bytes by exclusive or. The words of this file are little-endian numerals, but the
statement is the same for every byte order.
-/

namespace Galay.Lib

/-- The word whose bytes in memory are `bytes`. -/
def loadWord : Bytes → Nat
  | [] => 0
  | b :: bytes => b.toNat + 2 ^ 8 * loadWord bytes

/-- The bytes in memory of a word of `width` bytes. -/
def storeWord : (width word : Nat) → Bytes
  | 0, _ => []
  | width + 1, word => UInt8.ofNat (word % 2 ^ 8) :: storeWord width (word / 2 ^ 8)

def xorBytes (left right : Bytes) : Bytes := List.zipWith (· ^^^ ·) left right

theorem loadWord_mod (b : UInt8) (bytes : Bytes) : loadWord (b :: bytes) % 2 ^ 8 = b.toNat := by
  rw [loadWord, Nat.add_mul_mod_self_left, Nat.mod_eq_of_lt b.toNat_lt]

theorem loadWord_div (b : UInt8) (bytes : Bytes) :
    loadWord (b :: bytes) / 2 ^ 8 = loadWord bytes := by
  rw [loadWord, Nat.add_mul_div_left _ _ (by decide), Nat.div_eq_of_lt b.toNat_lt, Nat.zero_add]

theorem storeWord_xor (left right : Bytes) (h : left.length = right.length) :
    storeWord left.length (loadWord left ^^^ loadWord right) = xorBytes left right := by
  induction left generalizing right with
  | nil => rfl
  | cons a left ih =>
  cases right with
  | nil => cases h
  | cons b right =>
  have hbyte : UInt8.ofNat (a.toNat ^^^ b.toNat) = a ^^^ b := by
    rw [← UInt8.toNat_xor, UInt8.ofNat_toNat]
  rw [List.length_cons, storeWord, Nat.xor_mod_two_pow, Nat.xor_div_two_pow, loadWord_mod,
    loadWord_mod, loadWord_div, loadWord_div, ih right (Nat.succ.inj h), hbyte]
  rfl

end Galay.Lib
