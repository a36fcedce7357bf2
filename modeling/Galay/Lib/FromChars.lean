import Galay.Lib.Bytes
import Mathlib.Data.List.TakeWhile

/-!
# Number parsing of the C++ standard library (`std::from_chars`)

The longest run of digits is read; the pointer that is returned stands behind it, also when the
value does not fit. Neither white space nor a plus sign is skipped.
-/

namespace Galay.Lib

inductive Errc
  | invalidArgument
  | resultOutOfRange
  deriving DecidableEq, Repr

/-- The value of a digit or letter. -/
def digitValue (c : UInt8) : Option Nat :=
  if 0x30 ≤ c ∧ c ≤ 0x39 then some (c.toNat - 0x30)
  else if 0x61 ≤ c ∧ c ≤ 0x7a then some (c.toNat - 0x61 + 10)
  else if 0x41 ≤ c ∧ c ≤ 0x5a then some (c.toNat - 0x41 + 10)
  else none

def isDigit (base : Nat) (c : UInt8) : Bool := (digitValue c).any (· < base)

def digitsValue (base : Nat) (digits : Bytes) : Nat :=
  digits.foldl (fun value c => value * base + (digitValue c).getD 0) 0

/-- The value, or the error, and the text that was not read. -/
def fromChars (base max : Nat) (text : Bytes) : Except Errc Nat × Bytes :=
  let digits := text.takeWhile (isDigit base)
  let rest := text.dropWhile (isDigit base)
  if digits = [] then (.error .invalidArgument, text)
  else if max < digitsValue base digits then (.error .resultOutOfRange, rest)
  else (.ok (digitsValue base digits), rest)

/-- A signed decimal number that is the whole text. -/
def signedFromChars (bits : Nat) (text : Bytes) : Option Int :=
  match text with
  | 0x2D :: digits =>
    match fromChars 10 (2 ^ (bits - 1)) digits with
    | (.ok value, []) => some (-value)
    | _ => none
  | _ =>
    match fromChars 10 (2 ^ (bits - 1) - 1) text with
    | (.ok value, []) => some value
    | _ => none

theorem le_of_fromChars {max : Nat}
    (h : fromChars base max text = (.ok value, rest)) : value ≤ max := by
  unfold fromChars at h
  simp only at h
  split at h
  · cases h
  split at h
  · cases h
  next hmax =>
  cases h
  omega

theorem fromChars_eq_ok_nil {max : Nat} : fromChars base max text = (.ok value, []) ↔
      (text ≠ [] ∧ text.all (isDigit base) = true) ∧ digitsValue base text = value ∧ value ≤ max := by
  constructor
  · intro h
    have hle := le_of_fromChars h
    simp only [fromChars] at h
    split at h
    · cases h
    next hdigits =>
    split at h
    · cases h
    injection h with hval hrest
    have hall := List.dropWhile_eq_nil_iff.1 hrest
    have htake := List.takeWhile_eq_self_iff.2 hall
    rw [htake] at hval hdigits
    exact ⟨⟨hdigits, List.all_eq_true.2 hall⟩, Except.ok.inj hval, hle⟩
  rintro ⟨⟨hne, hall⟩, rfl, hle⟩
  have hall' := List.all_eq_true.1 hall
  have htake := List.takeWhile_eq_self_iff.2 hall'
  have hdrop := List.dropWhile_eq_nil_iff.2 hall'
  rw [fromChars, htake, hdrop, if_neg hne, if_neg (Nat.not_lt.2 hle)]

end Galay.Lib
