import Galay.Lib.Bytes

/-!
# Strings of bits, the highest bit first
-/

namespace Galay.Lib

open List

abbrev Bits := List Bool

/-- The lowest bits of a number. -/
def bitsOf : (width value : Nat) → Bits
  | 0, _ => []
  | width + 1, value => value.testBit width :: bitsOf width value

@[simp] theorem length_bitsOf (width value : Nat) : (bitsOf width value).length = width := by
  induction width with
  | zero => rfl
  | succ width ih => rw [bitsOf, length_cons, ih]

theorem bitsOf_congr (h : ∀ i < width, a.testBit i = b.testBit i) :
    bitsOf width a = bitsOf width b := by
  induction width with
  | zero => rfl
  | succ width ih =>
  rw [bitsOf, bitsOf, h width width.lt_succ_self, ih fun i hi => h i (Nat.lt_succ_of_lt hi)]

theorem testBit_of_bitsOf (h : bitsOf width a = bitsOf width b) :
    ∀ i < width, a.testBit i = b.testBit i := by
  induction width with
  | zero => nofun
  | succ width ih =>
  rw [bitsOf, bitsOf, List.cons.injEq] at h
  intro i hi
  rcases Nat.lt_succ_iff_lt_or_eq.1 hi with hlt | rfl
  · exact ih h.2 i hlt
  exact h.1

theorem bitsOf_inj (ha : a < 2 ^ width) (hb : b < 2 ^ width)
    (h : bitsOf width a = bitsOf width b) : a = b := by
  refine Nat.eq_of_testBit_eq fun i => ?_
  by_cases hi : i < width
  · exact testBit_of_bitsOf h i hi
  have hle : 2 ^ width ≤ 2 ^ i := Nat.pow_le_pow_right Nat.two_pos (Nat.le_of_not_lt hi)
  rw [Nat.testBit_lt_two_pow (ha.trans_le hle), Nat.testBit_lt_two_pow (hb.trans_le hle)]

theorem bitsOf_add (high low value : Nat) :
    bitsOf (high + low) value = bitsOf high (value >>> low) ++ bitsOf low value := by
  induction high with
  | zero => rw [Nat.zero_add, bitsOf, nil_append]
  | succ high ih =>
  rw [Nat.succ_add, bitsOf, bitsOf, ih, cons_append, Nat.testBit_shiftRight,
    Nat.add_comm low high]

theorem bitsOf_mod (width value : Nat) : bitsOf width (value % 2 ^ width) = bitsOf width value :=
  bitsOf_congr fun i hi => by rw [Nat.testBit_mod_two_pow, decide_eq_true hi, Bool.true_and]

/-- Bits that are put behind others, in a register that is wide enough. -/
theorem bitsOf_shiftLeft_or {high low register value code : Nat} (hfits : high + low ≤ register)
    (hcode : code < 2 ^ low) :
    bitsOf (high + low) ((value <<< low ||| code) % 2 ^ register) =
      bitsOf high value ++ bitsOf low code := by
  have hmod : bitsOf (high + low) ((value <<< low ||| code) % 2 ^ register) =
      bitsOf (high + low) (value <<< low ||| code) :=
    bitsOf_congr fun i hi => by
      rw [Nat.testBit_mod_two_pow, decide_eq_true (Nat.lt_of_lt_of_le hi hfits), Bool.true_and]
  have hlow (i : Nat) (hi : i < low) : (value <<< low ||| code).testBit i = code.testBit i := by
    rw [Nat.testBit_or, Nat.testBit_shiftLeft, decide_eq_false (Nat.not_le_of_lt hi),
      Bool.false_and, Bool.false_or]
  have hhigh (i : Nat) (_ : i < high) :
      ((value <<< low ||| code) >>> low).testBit i = value.testBit i := by
    have hzero : code.testBit (low + i) = false := Nat.testBit_lt_two_pow
      (hcode.trans_le (Nat.pow_le_pow_right Nat.two_pos (Nat.le_add_right low i)))
    rw [Nat.testBit_shiftRight, Nat.testBit_or, Nat.testBit_shiftLeft, hzero,
      decide_eq_true (Nat.le_add_right low i), Nat.add_sub_cancel_left, Bool.true_and,
      Bool.or_false]
  rw [hmod, bitsOf_add, bitsOf_congr hhigh, bitsOf_congr hlow]

theorem bitsOf_ones (width : Nat) : bitsOf width (2 ^ width - 1) = List.replicate width true := by
  refine List.eq_replicate_iff.2 ⟨length_bitsOf _ _, ?_⟩
  have hall : ∀ k ≤ width, ∀ b ∈ bitsOf k (2 ^ width - 1), b = true := by
    intro k hk
    induction k with
    | zero => nofun
    | succ k ih =>
    rw [bitsOf, forall_mem_cons]
    refine ⟨?_, ih (Nat.le_of_succ_le hk)⟩
    rw [Nat.testBit_two_pow_sub_one]
    exact decide_eq_true hk
  exact hall width le_rfl

theorem eq_ones_of_bitsOf (hval : value < 2 ^ width)
    (h : bitsOf width value = List.replicate width true) : value = 2 ^ width - 1 :=
  bitsOf_inj hval (Nat.sub_lt Nat.one_le_two_pow Nat.one_pos) (h.trans (bitsOf_ones width).symm)

/-! ## Bytes -/

def bitsOfBytes (data : Bytes) : Bits := data.flatMap fun b => bitsOf 8 b.toNat

theorem bitsOfBytes_append (data data' : Bytes) :
    bitsOfBytes (data ++ data') = bitsOfBytes data ++ bitsOfBytes data' := flatMap_append

theorem length_bitsOfBytes (data : Bytes) : (bitsOfBytes data).length = 8 * data.length := by
  induction data with
  | nil => rfl
  | cons b data ih =>
  rw [bitsOfBytes, flatMap_cons, length_append, length_bitsOf, length_cons]
  rw [bitsOfBytes] at ih
  rw [ih]
  omega

theorem bitsOfBytes_inj (h : bitsOfBytes data = bitsOfBytes data') : data = data' := by
  have hlen : data.length = data'.length := by
    have := congrArg List.length h
    rw [length_bitsOfBytes, length_bitsOfBytes] at this
    omega
  induction data generalizing data' with
  | nil => exact (eq_nil_of_length_eq_zero hlen.symm).symm
  | cons b data ih =>
  cases data' with
  | nil => cases hlen
  | cons b' data' =>
  rw [bitsOfBytes, bitsOfBytes, flatMap_cons, flatMap_cons] at h
  obtain ⟨hb, hdata⟩ := append_inj h (by rw [length_bitsOf, length_bitsOf])
  rw [UInt8.toNat_inj.1 (bitsOf_inj b.toNat_lt b'.toNat_lt hb), ih hdata (Nat.succ.inj hlen)]

end Galay.Lib
