import Galay.Lib.Bytes

/-!
# Little-endian integers

`toLe width n` are the low `width` bytes of `n`, least significant first; `ofLe` reads them back.
-/

namespace Galay.Lib

open List

def toLe : (width n : Nat) → Bytes
  | 0, _ => []
  | width + 1, n => UInt8.ofNat n :: toLe width (n >>> 8)

def ofLe : Bytes → Nat
  | [] => 0
  | b :: bytes => b.toNat ||| (ofLe bytes <<< 8)

@[simp] theorem length_toLe (width n : Nat) : (toLe width n).length = width := by
  induction width generalizing n with
  | zero => rfl
  | succ width ih => rw [toLe, length_cons, ih]

theorem ofLe_cons (b : UInt8) (bytes : Bytes) :
    ofLe (b :: bytes) = b.toNat + 256 * ofLe bytes := by
  rw [ofLe, Nat.lor_comm, ← Nat.shiftLeft_add_eq_or_of_lt b.toNat_lt, Nat.shiftLeft_eq,
    Nat.mul_comm, Nat.add_comm]

theorem ofLe_lt (bytes : Bytes) : ofLe bytes < 2 ^ (8 * bytes.length) := by
  induction bytes with
  | nil => exact Nat.one_pos
  | cons b bytes ih =>
  have hb := b.toNat_lt
  rw [ofLe_cons, length_cons, Nat.mul_succ, Nat.pow_add]
  omega

theorem ofLe_toLe_mod (width n : Nat) : ofLe (toLe width n) = n % 2 ^ (8 * width) := by
  induction width generalizing n with
  | zero => rw [Nat.mul_zero, Nat.pow_zero, Nat.mod_one]; rfl
  | succ width ih =>
  rw [toLe, ofLe_cons, ih, UInt8.toNat_ofNat', Nat.shiftRight_eq_div_pow, Nat.mul_succ,
    Nat.add_comm (8 * width), Nat.pow_add, Nat.mod_mul]

/-- A value that fits is read back. -/
theorem ofLe_toLe (h : n < 2 ^ (8 * width)) : ofLe (toLe width n) = n := by
  rw [ofLe_toLe_mod, Nat.mod_eq_of_lt h]

theorem toLe_mod (width n : Nat) : toLe width (n % 2 ^ (8 * width)) = toLe width n := by
  induction width generalizing n with
  | zero => rfl
  | succ width ih =>
  have hlow : n % 2 ^ (8 * (width + 1)) = n % 2 ^ 8 + 2 ^ 8 * (n / 2 ^ 8 % 2 ^ (8 * width)) := by
    rw [Nat.mul_succ, Nat.add_comm (8 * width), Nat.pow_add, Nat.mod_mul]
  have hbyte : UInt8.ofNat (n % 2 ^ (8 * (width + 1))) = UInt8.ofNat n := by
    apply UInt8.toNat_inj.1
    rw [UInt8.toNat_ofNat', UInt8.toNat_ofNat', hlow]
    omega
  have hrest : n % 2 ^ (8 * (width + 1)) / 2 ^ 8 = n / 2 ^ 8 % 2 ^ (8 * width) := by
    rw [hlow]
    omega
  rw [toLe, toLe, hbyte, Nat.shiftRight_eq_div_pow, hrest, ih, Nat.shiftRight_eq_div_pow]

/-- The low bytes of a value that was read from bytes. -/
theorem toLe_ofLe (h : width ≤ bytes.length) : toLe width (ofLe bytes) = bytes.take width := by
  induction width generalizing bytes with
  | zero => rfl
  | succ width ih =>
  obtain ⟨b, bytes, rfl⟩ := exists_cons_of_length_pos (Nat.lt_of_lt_of_le width.succ_pos h)
  have hb := b.toNat_lt
  have hlow : UInt8.ofNat (ofLe (b :: bytes)) = b := by
    apply UInt8.toNat_inj.1
    rw [UInt8.toNat_ofNat', ofLe_cons]
    omega
  have hhigh : ofLe (b :: bytes) >>> 8 = ofLe bytes := by
    rw [ofLe_cons, Nat.shiftRight_eq_div_pow]
    omega
  rw [toLe, hlow, hhigh, take_succ_cons, ih (Nat.le_of_succ_le_succ h)]

/-! ## Bits -/

/-- The number with these bits, least significant first. -/
def ofBits : List Bool → Nat
  | [] => 0
  | bit :: bits => bit.toNat + 2 * ofBits bits

/-- Bits in bytes, eight to a byte from the least significant on. The last byte is filled up with
zeros. -/
def packBits (bits : List Bool) : Bytes :=
  if _h : bits = [] then []
  else UInt8.ofNat (ofBits (bits.take 8)) :: packBits (bits.drop 8)
termination_by bits.length
decreasing_by
  have hpos := List.length_pos_of_ne_nil _h
  rw [List.length_drop]
  omega

theorem ofBits_lt (bits : List Bool) : ofBits bits < 2 ^ bits.length := by
  induction bits with
  | nil => exact Nat.one_pos
  | cons bit bits ih =>
  have hbit := bit.toNat_le
  rw [ofBits, length_cons, Nat.pow_succ]
  omega

theorem ofBits_replicate_false (n : Nat) : ofBits (List.replicate n false) = 0 := by
  induction n with
  | zero => rfl
  | succ n ih => rw [replicate_succ, ofBits, ih]; rfl

theorem length_packBits (bits : List Bool) : (packBits bits).length = (bits.length + 7) / 8 := by
  fun_induction packBits bits with
  | case1 => rfl
  | case2 bits hbits ih =>
  have hpos := length_pos_of_ne_nil hbits
  rw [length_cons, ih, length_drop]
  omega

theorem packBits_replicate_false (n : Nat) :
    packBits (List.replicate n false) = List.replicate ((n + 7) / 8) 0 := by
  apply List.eq_replicate_iff.2
  refine ⟨by rw [length_packBits, length_replicate], ?_⟩
  generalize hbits : List.replicate n false = bits
  intro byte hbyte
  fun_induction packBits bits generalizing n with
  | case1 => cases hbyte
  | case2 bits _ ih =>
  subst hbits
  rcases List.mem_cons.1 hbyte with rfl | hbyte
  · rw [take_replicate, ofBits_replicate_false]
    rfl
  exact ih (n - 8) List.drop_replicate.symm hbyte

end Galay.Lib
