import Galay.Lib.Bytes

/-!
# Big-endian integers

`toBe width n` are the low `width` bytes of `n`, most significant first; `ofBe` reads them back.
The two are inverse to each other on values that fit (`ofBe_toBe`, `toBe_ofBe`).
-/

namespace Galay.Lib

def toBe : (width n : Nat) → Bytes
  | 0, _ => []
  | width + 1, n => UInt8.ofNat (n >>> (8 * width)) :: toBe width n

def ofBe : Bytes → Nat
  | [] => 0
  | b :: bytes => (b.toNat <<< (8 * bytes.length)) ||| ofBe bytes

@[simp] theorem length_toBe (width n : Nat) : (toBe width n).length = width := by
  induction width with
  | zero => rfl
  | succ width ih => rw [toBe, List.length_cons, ih]

theorem ofBe_lt (bytes : Bytes) : ofBe bytes < 2 ^ (8 * bytes.length) := by
  induction bytes with
  | nil => exact Nat.one_pos
  | cons b bytes ih =>
  have hb := b.toNat_lt
  rw [ofBe, ← Nat.shiftLeft_add_eq_or_of_lt ih, Nat.shiftLeft_eq, List.length_cons,
    Nat.mul_succ, Nat.pow_add]
  calc b.toNat * 2 ^ (8 * bytes.length) + ofBe bytes
      < b.toNat * 2 ^ (8 * bytes.length) + 2 ^ (8 * bytes.length) := Nat.add_lt_add_left ih _
    _ = 2 ^ (8 * bytes.length) * (b.toNat + 1) := by rw [Nat.mul_comm, Nat.mul_succ]
    _ ≤ 2 ^ (8 * bytes.length) * 2 ^ 8 := Nat.mul_le_mul_left _ hb

theorem ofBe_cons (b : UInt8) (bytes : Bytes) :
    ofBe (b :: bytes) = b.toNat * 2 ^ (8 * bytes.length) + ofBe bytes := by
  rw [ofBe, ← Nat.shiftLeft_add_eq_or_of_lt (ofBe_lt bytes), Nat.shiftLeft_eq]

theorem ofBe_toBe_mod (width n : Nat) : ofBe (toBe width n) = n % 2 ^ (8 * width) := by
  induction width with
  | zero => rw [Nat.mul_zero, Nat.pow_zero, Nat.mod_one]; rfl
  | succ width ih =>
  rw [toBe, ofBe_cons, length_toBe, ih, UInt8.toNat_ofNat', Nat.shiftRight_eq_div_pow,
    Nat.mul_succ, Nat.pow_add, Nat.mod_mul, Nat.mul_comm, Nat.add_comm]

/-- A value that fits is read back. -/
theorem ofBe_toBe (h : n < 2 ^ (8 * width)) : ofBe (toBe width n) = n := by
  rw [ofBe_toBe_mod, Nat.mod_eq_of_lt h]

theorem toBe_add_mul (width n k : Nat) :
    toBe width (k * 2 ^ (8 * width) + n) = toBe width n := by
  induction width generalizing k with
  | zero => rfl
  | succ width ih =>
  have hsplit : k * 2 ^ (8 * (width + 1)) = (k * 2 ^ 8) * 2 ^ (8 * width) := by
    rw [Nat.mul_succ, Nat.pow_add, Nat.mul_comm (2 ^ (8 * width)), Nat.mul_assoc]
  rw [toBe, toBe, hsplit, ih]
  congr 1
  rw [Nat.shiftRight_eq_div_pow, Nat.shiftRight_eq_div_pow, Nat.mul_comm (k * 2 ^ 8),
    Nat.mul_add_div (Nat.two_pow_pos _)]
  apply UInt8.toNat_inj.1
  rw [UInt8.toNat_ofNat', UInt8.toNat_ofNat', Nat.mul_comm k, Nat.mul_add_mod]

/-- The bytes of a number that was read are the bytes it was read from. -/
theorem toBe_ofBe (bytes : Bytes) : toBe bytes.length (ofBe bytes) = bytes := by
  induction bytes with
  | nil => rfl
  | cons b bytes ih =>
  rw [List.length_cons, toBe, ofBe_cons, toBe_add_mul, ih, Nat.shiftRight_eq_div_pow,
    Nat.mul_comm, Nat.mul_add_div (Nat.two_pow_pos _), Nat.div_eq_of_lt (ofBe_lt bytes),
    Nat.add_zero, UInt8.ofNat_toNat]

variable {bytes : Bytes}

theorem toBe_ofBe_of_length (h : bytes.length = width) :
    toBe width (ofBe bytes) = bytes := h ▸ toBe_ofBe bytes

/-! ## 32-bit words -/

theorem toNat_and_31 (x : UInt32) : (x &&& 0x7FFFFFFF).toNat = x.toNat % 2 ^ 31 := by
  rw [UInt32.toNat_and]
  exact and_pred_eq_mod x.toNat 31

theorem and_31_of_lt {x : UInt32} (h : x.toNat < 2 ^ 31) : x &&& 0x7FFFFFFF = x :=
  UInt32.toNat_inj.1 (by rw [toNat_and_31, Nat.mod_eq_of_lt h])

theorem and_top_ne_zero (x : UInt32) : x &&& 0x80000000 ≠ 0 ↔ 2 ^ 31 ≤ x.toNat := by
  have hx := x.toNat_lt
  have hand : (x &&& 0x80000000).toNat = x.toNat / 2 ^ 31 % 2 * 2 ^ 31 := by
    rw [UInt32.toNat_and]
    show x.toNat &&& 2 ^ 31 = _
    rw [Nat.and_two_pow, Nat.testBit_eq_decide_div_mod_eq]
    rcases Nat.mod_two_eq_zero_or_one (x.toNat / 2 ^ 31) with h | h
    · rw [h]; rfl
    rw [h]; rfl
  rw [Ne, ← UInt32.toNat_inj, hand]
  show ¬ x.toNat / 2 ^ 31 % 2 * 2 ^ 31 = 0 ↔ _
  omega

theorem toNat_or_top {x : UInt32} (h : x.toNat < 2 ^ 31) :
    (x ||| 0x80000000).toNat = 2 ^ 31 + x.toNat := by
  rw [UInt32.toNat_or, Nat.lor_comm]
  exact or_eq_add (k := 31) ⟨1, rfl⟩ h

theorem ofNat_ofBe_toBe (x : UInt32) : UInt32.ofNat (ofBe (toBe 4 x.toNat)) = x := by
  rw [ofBe_toBe x.toNat_lt, UInt32.ofNat_toNat]

theorem toNat_ofNat_ofBe (h : bytes.length = 4) :
    (UInt32.ofNat (ofBe bytes)).toNat = ofBe bytes := by
  have hlt := ofBe_lt bytes
  rw [h] at hlt
  exact UInt32.toNat_ofNat_of_lt' hlt

theorem toBe_toNat_ofBe (h : bytes.length = 4) :
    toBe 4 (UInt32.ofNat (ofBe bytes)).toNat = bytes := by
  rw [toNat_ofNat_ofBe h, toBe_ofBe_of_length h]

theorem word_lt_of_top_clear (hlen : bytes.length = 4) (h : bytes.getD 0 0 &&& 0x80 = 0) :
    (UInt32.ofNat (ofBe bytes)).toNat < 2 ^ 31 := by
  rw [toNat_ofNat_ofBe hlen]
  cases bytes with
  | nil => cases hlen
  | cons b bytes =>
  have hb := (and_80_eq_zero b).1 h
  have hlt := ofBe_lt bytes
  rw [Nat.succ.inj hlen] at hlt
  rw [ofBe_cons, Nat.succ.inj hlen]
  omega

/-- Reading a word without its top bit and writing it back. -/
theorem toBe_and_31_ofBe (hlen : bytes.length = 4) (h : bytes.getD 0 0 &&& 0x80 = 0) :
    toBe 4 (UInt32.ofNat (ofBe bytes) &&& 0x7FFFFFFF &&& 0x7FFFFFFF).toNat = bytes := by
  have hlt := word_lt_of_top_clear hlen h
  rw [and_31_of_lt hlt, and_31_of_lt hlt, toBe_toNat_ofBe hlen]

end Galay.Lib
