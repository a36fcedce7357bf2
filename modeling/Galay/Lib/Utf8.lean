import Galay.Lib.Bytes

/-!
# UTF-8

`CharBytes` says in numbers which bytes stand for a character: the leading byte tells their number,
the others are trailing bytes, and the code point is in the range of that number of bytes and no
surrogate. These are the sequences that `String.utf8EncodeChar` makes (`charBytes_utf8EncodeChar`,
`exists_utf8EncodeChar`), since a `Char` is a code point that may be encoded and each has one
sequence.
-/

namespace Galay.Lib

/-- A trailing byte. -/
def IsTail (b : UInt8) : Prop := 128 ≤ b.toNat ∧ b.toNat < 192

def codepoint2 (a b : UInt8) : Nat := a.toNat % 32 * 64 + b.toNat % 64
def codepoint3 (a b c : UInt8) : Nat := a.toNat % 16 * 4096 + b.toNat % 64 * 64 + c.toNat % 64
def codepoint4 (a b c d : UInt8) : Nat :=
  a.toNat % 8 * 262144 + b.toNat % 64 * 4096 + c.toNat % 64 * 64 + d.toNat % 64

inductive CharBytes : Bytes → Prop
  | one {a : UInt8} : a.toNat < 128 → CharBytes [a]
  | two {a b : UInt8} : 192 ≤ a.toNat → a.toNat < 224 → IsTail b → 0x80 ≤ codepoint2 a b →
    CharBytes [a, b]
  | three {a b c : UInt8} : 224 ≤ a.toNat → a.toNat < 240 → IsTail b → IsTail c →
    0x800 ≤ codepoint3 a b c → ¬ (0xD800 ≤ codepoint3 a b c ∧ codepoint3 a b c ≤ 0xDFFF) →
    CharBytes [a, b, c]
  | four {a b c d : UInt8} : 240 ≤ a.toNat → a.toNat < 248 → IsTail b → IsTail c → IsTail d →
    0x10000 ≤ codepoint4 a b c d → codepoint4 a b c d ≤ 0x10FFFF → CharBytes [a, b, c, d]

/-- Characters one after the other, with none cut off at the end. -/
inductive Utf8Text : Bytes → Prop
  | nil : Utf8Text []
  | cons {front rest : Bytes} : CharBytes front → Utf8Text rest → Utf8Text (front ++ rest)

/-! ## The sequences of characters -/

theorem charBytes_utf8EncodeChar (c : Char) : CharBytes (String.utf8EncodeChar c) := by
  have hvalid : c.val.toNat < 0xD800 ∨ (0xDFFF < c.val.toNat ∧ c.val.toNat < 0x110000) := c.valid
  unfold String.utf8EncodeChar
  generalize c.val.toNat = v at hvalid ⊢
  dsimp only
  split
  · refine .one ?_
    rw [toNat_byte (by omega)]
    omega
  split
  · have ha := toNat_byte (show v / 64 % 32 + 192 < 256 by omega)
    have hb := toNat_byte (show v % 64 + 128 < 256 by omega)
    refine .two (by omega) (by omega) ⟨by omega, by omega⟩ ?_
    rw [codepoint2, ha, hb]
    omega
  split
  · have ha := toNat_byte (show v / 4096 % 16 + 224 < 256 by omega)
    have hb := toNat_byte (show v / 64 % 64 + 128 < 256 by omega)
    have hc := toNat_byte (show v % 64 + 128 < 256 by omega)
    refine .three (by omega) (by omega) ⟨by omega, by omega⟩ ⟨by omega, by omega⟩ ?_ ?_
    all_goals
      rw [codepoint3, ha, hb, hc]
      omega
  have ha := toNat_byte (show v / 262144 % 8 + 240 < 256 by omega)
  have hb := toNat_byte (show v / 4096 % 64 + 128 < 256 by omega)
  have hc := toNat_byte (show v / 64 % 64 + 128 < 256 by omega)
  have hd := toNat_byte (show v % 64 + 128 < 256 by omega)
  refine .four (by omega) (by omega) ⟨by omega, by omega⟩ ⟨by omega, by omega⟩
    ⟨by omega, by omega⟩ ?_ ?_
  all_goals
    rw [codepoint4, ha, hb, hc, hd]
    omega

theorem exists_char {v : Nat} (h : v < 0xD800 ∨ (0xDFFF < v ∧ v < 0x110000)) :
    ∃ c : Char, c.val.toNat = v :=
  ⟨Char.ofNatAux v h, rfl⟩

theorem byte_eq {n : Nat} {b : UInt8} (h : n = b.toNat) : UInt8.ofNat n = b := by
  rw [h, UInt8.ofNat_toNat]

theorem exists_utf8EncodeChar (h : CharBytes bytes) :
    ∃ c : Char, String.utf8EncodeChar c = bytes := by
  cases h with
  | @one a ha =>
    obtain ⟨c, hc⟩ := @exists_char a.toNat (by omega)
    refine ⟨c, ?_⟩
    unfold String.utf8EncodeChar
    rw [hc, if_pos (by omega), byte_eq rfl]
  | @two a b hlow hhigh hb hmin =>
    have hb' : 128 ≤ b.toNat ∧ b.toNat < 192 := hb
    have hv : codepoint2 a b = a.toNat % 32 * 64 + b.toNat % 64 := rfl
    obtain ⟨c, hc⟩ := @exists_char (codepoint2 a b) (by omega)
    refine ⟨c, ?_⟩
    unfold String.utf8EncodeChar
    rw [hc, if_neg (by omega), if_pos (by omega), @byte_eq _ a (by omega), @byte_eq _ b (by omega)]
  | @three a b c hlow hhigh hb hc hmin hsurrogate =>
    have hb' : 128 ≤ b.toNat ∧ b.toNat < 192 := hb
    have hc' : 128 ≤ c.toNat ∧ c.toNat < 192 := hc
    have hv : codepoint3 a b c = a.toNat % 16 * 4096 + b.toNat % 64 * 64 + c.toNat % 64 := rfl
    obtain ⟨char, hchar⟩ := @exists_char (codepoint3 a b c) (by omega)
    refine ⟨char, ?_⟩
    unfold String.utf8EncodeChar
    rw [hchar, if_neg (by omega), if_neg (by omega), if_pos (by omega), @byte_eq _ a (by omega),
      @byte_eq _ b (by omega), @byte_eq _ c (by omega)]
  | @four a b c d hlow hhigh hb hc hd hmin hmax =>
  have hb' : 128 ≤ b.toNat ∧ b.toNat < 192 := hb
  have hc' : 128 ≤ c.toNat ∧ c.toNat < 192 := hc
  have hd' : 128 ≤ d.toNat ∧ d.toNat < 192 := hd
  have hv : codepoint4 a b c d =
    a.toNat % 8 * 262144 + b.toNat % 64 * 4096 + c.toNat % 64 * 64 + d.toNat % 64 := rfl
  obtain ⟨char, hchar⟩ := @exists_char (codepoint4 a b c d) (by omega)
  refine ⟨char, ?_⟩
  unfold String.utf8EncodeChar
  rw [hchar, if_neg (by omega), if_neg (by omega), if_neg (by omega), @byte_eq _ a (by omega),
    @byte_eq _ b (by omega), @byte_eq _ c (by omega), @byte_eq _ d (by omega)]

theorem utf8Text_iff :
    Utf8Text data ↔ ∃ chars : List Char, data = chars.flatMap String.utf8EncodeChar := by
  constructor
  · intro h
    induction h with
    | nil => exact ⟨[], rfl⟩
    | cons hfront hrest ih =>
    obtain ⟨c, rfl⟩ := exists_utf8EncodeChar hfront
    obtain ⟨chars, rfl⟩ := ih
    exact ⟨c :: chars, List.flatMap_cons.symm⟩
  rintro ⟨chars, rfl⟩
  induction chars with
  | nil => exact .nil
  | cons c chars ih =>
  rw [List.flatMap_cons]
  exact .cons (charBytes_utf8EncodeChar c) ih

/-! ## The bits of the bytes -/

private theorem class_bits : ∀ n : Fin 256,
    (UInt8.ofNat n &&& 0xC0 = 0x80 ↔ 128 ≤ n.val ∧ n.val < 192) ∧
    (UInt8.ofNat n &&& 0xE0 = 0xC0 ↔ 192 ≤ n.val ∧ n.val < 224) ∧
    (UInt8.ofNat n &&& 0xF0 = 0xE0 ↔ 224 ≤ n.val ∧ n.val < 240) ∧
    (UInt8.ofNat n &&& 0xF8 = 0xF0 ↔ 240 ≤ n.val ∧ n.val < 248) := by
  decide +kernel

variable (b : UInt8)

theorem and_C0 : b &&& 0xC0 = 0x80 ↔ IsTail b := by
  unfold IsTail
  simpa using (class_bits ⟨b.toNat, b.toNat_lt⟩).1

theorem and_E0 : b &&& 0xE0 = 0xC0 ↔ 192 ≤ b.toNat ∧ b.toNat < 224 := by
  simpa using (class_bits ⟨b.toNat, b.toNat_lt⟩).2.1

theorem and_F0 : b &&& 0xF0 = 0xE0 ↔ 224 ≤ b.toNat ∧ b.toNat < 240 := by
  simpa using (class_bits ⟨b.toNat, b.toNat_lt⟩).2.2.1

theorem and_F8 : b &&& 0xF8 = 0xF0 ↔ 240 ≤ b.toNat ∧ b.toNat < 248 := by
  simpa using (class_bits ⟨b.toNat, b.toNat_lt⟩).2.2.2

theorem toNat_and_low : (b &&& 0x1F).toNat = b.toNat % 32 ∧
    (b &&& 0x0F).toNat = b.toNat % 16 ∧ (b &&& 0x07).toNat = b.toNat % 8 ∧
    (b &&& 0x3F).toNat = b.toNat % 64 := by
  simp only [UInt8.toNat_and]
  exact ⟨and_pred_eq_mod _ 5, and_pred_eq_mod _ 4, and_pred_eq_mod _ 3, and_pred_eq_mod _ 6⟩

theorem shiftLeft_or (hv : v < 2 ^ k) : a <<< k ||| v = a * 2 ^ k + v := by
  rw [Nat.shiftLeft_eq]
  exact or_eq_add (Nat.dvd_mul_left _ _) hv

theorem codepoint2_eq (a b : UInt8) :
    (a &&& 0x1F).toNat <<< 6 ||| (b &&& 0x3F).toNat = codepoint2 a b := by
  have hb : b.toNat % 64 < 2 ^ 6 := Nat.mod_lt _ (by decide)
  rw [(toNat_and_low a).1, (toNat_and_low b).2.2.2, shiftLeft_or hb]
  rfl

theorem codepoint3_eq (a b c : UInt8) :
    (a &&& 0x0F).toNat <<< 12 ||| (b &&& 0x3F).toNat <<< 6 ||| (c &&& 0x3F).toNat =
      codepoint3 a b c := by
  have hc : c.toNat % 64 < 2 ^ 6 := Nat.mod_lt _ (by decide)
  have hlow : b.toNat % 64 * 2 ^ 6 + c.toNat % 64 < 2 ^ 12 := by omega
  rw [(toNat_and_low a).2.1, (toNat_and_low b).2.2.2, (toNat_and_low c).2.2.2, Nat.or_assoc,
    shiftLeft_or hc, shiftLeft_or hlow, codepoint3]
  omega

theorem codepoint4_eq (a b c d : UInt8) :
    (a &&& 0x07).toNat <<< 18 ||| (b &&& 0x3F).toNat <<< 12 ||| (c &&& 0x3F).toNat <<< 6 |||
      (d &&& 0x3F).toNat = codepoint4 a b c d := by
  have hd : d.toNat % 64 < 2 ^ 6 := Nat.mod_lt _ (by decide)
  have hlow : c.toNat % 64 * 2 ^ 6 + d.toNat % 64 < 2 ^ 12 := by omega
  have hlow' : b.toNat % 64 * 2 ^ 12 + (c.toNat % 64 * 2 ^ 6 + d.toNat % 64) < 2 ^ 18 := by omega
  rw [(toNat_and_low a).2.2.1, (toNat_and_low b).2.2.2, (toNat_and_low c).2.2.2,
    (toNat_and_low d).2.2.2, Nat.or_assoc, Nat.or_assoc, shiftLeft_or hd, shiftLeft_or hlow,
    shiftLeft_or hlow', codepoint4]
  omega

end Galay.Lib
