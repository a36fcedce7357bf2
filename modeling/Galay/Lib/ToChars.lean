import Galay.Lib.FromChars

/-!
# Numbers as text

The text of a number in a base of up to sixteen, without leading zeros and in small letters, as
`std::to_chars` and an output stream write it; `fromChars` reads it back.
-/

namespace Galay.Lib

open List

def digit (d : Nat) : UInt8 := UInt8.ofNat d.digitChar.toNat

def numeral (base n : Nat) : Bytes := (Nat.toDigits base n).map fun c => UInt8.ofNat c.toNat

theorem digitValue_digit (h : d < 16) : digitValue (digit d) = some d := by
  have hall : ∀ d : Fin 16, digitValue (digit d) = some d.val := by decide
  exact hall ⟨d, h⟩

theorem isDigit_digit (hbase : base ≤ 16) (h : d < base) : isDigit base (digit d) = true := by
  rw [isDigit, digitValue_digit (by omega)]
  exact decide_eq_true h

theorem numeral_of_lt (h : n < base) : numeral base n = [digit n] := by
  rw [numeral, Nat.toDigits_of_lt_base h]
  rfl

theorem numeral_of_le (hbase : 1 < base) (h : base ≤ n) :
    numeral base n = numeral base (n / base) ++ [digit (n % base)] := by
  rw [numeral, Nat.toDigits_of_base_le hbase h, map_append]
  rfl

theorem numeral_ne_nil (base n : Nat) : numeral base n ≠ [] := by
  intro h
  exact Nat.toDigits_ne_nil (List.map_eq_nil_iff.1 h)

theorem length_numeral_le (hbase : 1 < base) (hk : 0 < k) (h : n < base ^ k) :
    (numeral base n).length ≤ k := by
  rw [numeral, length_map]
  exact (Nat.length_toDigits_le_iff hbase hk).2 h

section

variable (hbase : 1 < base) (hle : base ≤ 16)
include hbase hle

theorem isDigit_of_mem_numeral (h : c ∈ numeral base n) : isDigit base c = true := by
  induction n using Nat.strongRecOn with
  | ind n ih =>
  by_cases hlt : n < base
  · rw [numeral_of_lt hlt, mem_singleton] at h
    rw [h]
    exact isDigit_digit hle hlt
  rw [numeral_of_le hbase (Nat.le_of_not_lt hlt), mem_append, mem_singleton] at h
  obtain h | rfl := h
  · exact ih (n / base) (Nat.div_lt_self (by omega) hbase) h
  exact isDigit_digit hle (Nat.mod_lt n (by omega))

theorem digitsValue_numeral (n : Nat) : digitsValue base (numeral base n) = n := by
  have hsnoc (digits : Bytes) (d : Nat) (hd : d < base) :
      digitsValue base (digits ++ [digit d]) = digitsValue base digits * base + d := by
    rw [digitsValue, foldl_append, foldl_cons, foldl_nil, digitValue_digit (by omega)]
    rfl
  induction n using Nat.strongRecOn with
  | ind n ih =>
  by_cases hlt : n < base
  · have h := hsnoc [] n hlt
    rw [nil_append] at h
    rw [numeral_of_lt hlt, h, digitsValue, foldl_nil, Nat.zero_mul, Nat.zero_add]
  rw [numeral_of_le hbase (Nat.le_of_not_lt hlt), hsnoc _ _ (Nat.mod_lt n (by omega)),
    ih (n / base) (Nat.div_lt_self (by omega) hbase)]
  exact Nat.div_add_mod' n base

theorem fromChars_numeral {max : Nat} (hmax : n ≤ max) :
    fromChars base max (numeral base n) = (.ok n, []) := by
  have hall : ∀ c ∈ numeral base n, isDigit base c = true := fun c hc =>
    isDigit_of_mem_numeral hbase hle hc
  have htake := List.takeWhile_eq_self_iff.2 hall
  have hdrop := List.dropWhile_eq_nil_iff.2 hall
  unfold fromChars
  simp only [htake, hdrop]
  rw [if_neg (numeral_ne_nil base n), digitsValue_numeral hbase hle, if_neg (by omega)]

end

/-! ## Signed numbers -/

/-- The text of an integer in decimal. -/
def signedNumeral (value : Int) : Bytes :=
  if value < 0 then 0x2D :: numeral 10 value.natAbs else numeral 10 value.natAbs

theorem signedNumeral_natCast (n : Nat) : signedNumeral n = numeral 10 n := by
  rw [signedNumeral, if_neg (by omega), Int.natAbs_natCast]

theorem mem_signedNumeral (h : c ∈ signedNumeral value) : c = 0x2D ∨ isDigit 10 c = true := by
  rw [signedNumeral] at h
  split at h
  · rcases List.mem_cons.1 h with h | h
    · exact .inl h
    exact .inr (isDigit_of_mem_numeral (by decide) (by decide) h)
  exact .inr (isDigit_of_mem_numeral (by decide) (by decide) h)

theorem signedFromChars_numeral (hmax : n < 2 ^ (bits - 1)) :
    signedFromChars bits (numeral 10 n) = some (n : Int) := by
  have hread : fromChars 10 (2 ^ (bits - 1) - 1) (numeral 10 n) = (.ok n, []) :=
    fromChars_numeral (by decide) (by decide) (by omega)
  rcases hn : numeral 10 n with _ | ⟨c, digits⟩
  · exact absurd hn (numeral_ne_nil 10 n)
  have hc : c ∈ numeral 10 n := by
    rw [hn]
    exact mem_cons_self
  have hdigit := isDigit_of_mem_numeral (by decide) (by decide) hc
  have hsign : c ≠ 0x2D := by
    rintro rfl
    exact absurd hdigit (by decide)
  rw [hn] at hread
  rw [signedFromChars]
  · rw [hread]
  rintro digits' h
  exact hsign (List.cons.inj h).1

theorem signedFromChars_signedNumeral (hmin : -2 ^ (bits - 1) ≤ value)
    (hmax : value < 2 ^ (bits - 1)) : signedFromChars bits (signedNumeral value) = some value := by
  have hpow : ((2 ^ (bits - 1) : Nat) : Int) = 2 ^ (bits - 1) := by simp
  rcases Int.lt_or_le value 0 with hneg | hpos
  · have hread : fromChars 10 (2 ^ (bits - 1)) (numeral 10 value.natAbs) =
        (.ok value.natAbs, []) := fromChars_numeral (by decide) (by decide) (by omega)
    rw [signedNumeral, if_pos hneg, signedFromChars, hread]
    exact congrArg some (by omega)
  obtain ⟨n, rfl⟩ := Int.eq_ofNat_of_zero_le hpos
  rw [signedNumeral_natCast]
  exact signedFromChars_numeral (by omega)

end Galay.Lib
