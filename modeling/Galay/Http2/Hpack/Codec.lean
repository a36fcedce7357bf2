import Galay.Http2.Hpack.Encoder
import Galay.Http2.Hpack.Decoder
import Mathlib.Tactic.Ring

/-!
# The decoder reads what the encoder writes

The primitive types round trip (`decodeInteger_encodeInteger`, `decodeString_encodeString`), and
for every representation there is one equation that says what the decoding loop does when it
meets an encoded field in front of the remaining bytes. The equations are about `decodeFrom`,
the loop with enough rounds for its input.
-/

namespace Galay.Http2

open List
open Lib

namespace HpackDecoder

open HpackEncoder (encodeIntegerTail encodeInteger encodeString encodeIndexed)

variable {dec : HpackDecoder} {rest : Bytes}

/-! ## Integers -/

theorem decodeIntegerTail_last (hv : v < 128) (hs : shift < 32)
    (hfit : value + v * 2 ^ shift < 2 ^ 32) :
    decodeIntegerTail value shift (UInt8.ofNat v :: rest) = .ok (value + v * 2 ^ shift, rest) := by
  have hb : (UInt8.ofNat v).toNat = v := toNat_byte (by omega)
  have hle : v ≤ (2 ^ 32 - 1 - value) >>> shift := by
    rw [Nat.shiftRight_eq_div_pow, Nat.le_div_iff_mul_le (Nat.two_pow_pos _)]
    omega
  simp only [decodeIntegerTail, toNat_and_7F, hb, Nat.mod_eq_of_lt hv,
    and_80_eq_zero, Nat.shiftLeft_eq]
  rw [if_neg (by omega), if_pos hv]

theorem decodeIntegerTail_encodeIntegerTail
    (hv : v < 128 ^ (rounds + 1)) (hs : shift < 32) (hfit : value + v * 2 ^ shift < 2 ^ 32) :
    decodeIntegerTail value shift (encodeIntegerTail rounds v ++ rest) =
      .ok (value + v * 2 ^ shift, rest) := by
  induction rounds generalizing value shift v with
  | zero => exact decodeIntegerTail_last (by simpa using hv) hs hfit
  | succ rounds ih =>
  simp only [encodeIntegerTail]
  split
  · next hge =>
    have hbyte : (v &&& 0x7F) ||| 0x80 = 128 + v % 128 := by
      rw [show (0x7F : Nat) = 2 ^ 7 - 1 from rfl, and_pred_eq_mod, Nat.lor_comm]
      exact or_eq_add (k := 7) ⟨1, rfl⟩ (Nat.mod_lt _ (by decide))
    have hb : (UInt8.ofNat (128 + v % 128)).toNat = 128 + v % 128 :=
      toNat_byte (by omega)
    have hdiv : v >>> 7 = v / 128 := Nat.shiftRight_eq_div_pow v 7
    have hpow : 2 ^ (shift + 7) = 2 ^ shift * 128 := Nat.pow_add 2 shift 7
    have hsplit : v * 2 ^ shift = (v % 128) * 2 ^ shift + (v / 128) * 2 ^ (shift + 7) := by
      conv_lhs => rw [← Nat.mod_add_div v 128]
      rw [hpow]; ring
    -- a value that needs another byte is far from the last shift
    have hshift : shift + 7 < 32 := by
      by_contra hcon
      have : 2 ^ 32 ≤ 2 ^ (shift + 7) := Nat.pow_le_pow_right (by decide) (by omega)
      have : 2 ^ shift * 128 ≤ v * 2 ^ shift := by
        rw [Nat.mul_comm]; exact Nat.mul_le_mul_right _ hge
      omega
    have hle : v % 128 ≤ (2 ^ 32 - 1 - value) >>> shift := by
      rw [Nat.shiftRight_eq_div_pow, Nat.le_div_iff_mul_le (Nat.two_pow_pos _)]
      omega
    rw [hbyte, cons_append, decodeIntegerTail]
    simp only [toNat_and_7F, hb, and_80_eq_zero, Nat.shiftLeft_eq, Nat.add_mod_left, Nat.mod_mod]
    rw [if_neg (by omega), if_neg (by omega), if_neg (by omega), hdiv,
      ih (by rw [Nat.pow_succ] at hv; omega) hshift (by omega)]
    congr 2
    omega
  next hlt => exact decodeIntegerTail_last (by omega) hs hfit

theorem decodeInteger_encodeInteger (rest : Bytes)
    (hv : value < 2 ^ 32) (hdvd : 2 ^ prefixBits ∣ prefixByte)
    (hbyte : prefixByte + 2 ^ prefixBits ≤ 256) :
    decodeInteger (encodeInteger value prefixBits prefixByte ++ rest) prefixBits =
      .ok (value, rest) := by
  have hpos := Nat.two_pow_pos prefixBits
  unfold encodeInteger
  simp only [Nat.mod_eq_of_lt hv]
  split
  · next h =>
    rw [or_eq_add hdvd (by omega), singleton_append, decodeInteger]
    simp only [toNat_byte (show prefixByte + value < 256 by omega), and_pred_eq_mod]
    rw [Nat.add_mod, Nat.mod_eq_zero_of_dvd hdvd, Nat.zero_add, Nat.mod_mod,
      Nat.mod_eq_of_lt (by omega), if_pos h]
  next h =>
  rw [or_eq_add hdvd (by omega), cons_append, decodeInteger]
  simp only [toNat_byte (show prefixByte + (2 ^ prefixBits - 1) < 256 by omega), and_pred_eq_mod]
  rw [Nat.add_mod, Nat.mod_eq_zero_of_dvd hdvd, Nat.zero_add, Nat.mod_mod,
    Nat.mod_eq_of_lt (by omega), if_neg (by omega),
    decodeIntegerTail_encodeIntegerTail (by omega) (by decide) (by omega)]
  congr 2
  omega

/-- The first byte of an encoded integer carries the pattern of its representation. -/
theorem encodeInteger_eq_cons (value : Nat)
    (hdvd : 2 ^ prefixBits ∣ prefixByte) (hbyte : prefixByte + 2 ^ prefixBits ≤ 256) :
    ∃ b tail, encodeInteger value prefixBits prefixByte = b :: tail ∧
      prefixByte ≤ b.toNat ∧ b.toNat < prefixByte + 2 ^ prefixBits := by
  have hpos := Nat.two_pow_pos prefixBits
  unfold encodeInteger
  simp only
  split
  · next h =>
    refine ⟨_, _, rfl, ?_⟩
    rw [or_eq_add hdvd (by omega), toNat_byte (by omega)]
    omega
  refine ⟨_, _, rfl, ?_⟩
  rw [or_eq_add hdvd (by omega), toNat_byte (by omega)]
  omega

variable {data data' : Bytes}

/-- The number of a continuation, seven bits a byte from the lowest ones up, without a bound. -/
def continuation : Bytes → Option (Nat × Bytes)
  | [] => none
  | b :: data =>
    if b.toNat < 128 then some (b.toNat, data)
    else (continuation data).map fun (n, rest) => (b.toNat % 128 + 128 * n, rest)

/-- The integer that bytes start with, of any size, and what is behind it. -/
def represented (prefixBits : Nat) : Bytes → Option (Nat × Bytes)
  | [] => none
  | b :: data =>
    let low := b.toNat % 2 ^ prefixBits
    if low < 2 ^ prefixBits - 1 then some (low, data)
    else (continuation data).map fun (n, rest) => (low + n, rest)

theorem decodeIntegerTail_sound
    (h : decodeIntegerTail value shift data = .ok (v, data')) (hvalue : value < 2 ^ 32) :
    v < 2 ^ 32 ∧ data' <:+ data ∧
      ∃ n, continuation data = some (n, data') ∧ v = value + n * 2 ^ shift := by
  induction data generalizing value shift with
  | nil => cases h
  | cons b data ih =>
  simp only [decodeIntegerTail, toNat_and_7F, and_80_eq_zero, Nat.shiftLeft_eq] at h
  split at h
  · cases h
  next hguard =>
  -- the guard says that the byte fits above the shift
  have hfit : b.toNat % 128 * 2 ^ shift ≤ 2 ^ 32 - 1 - value := by
    rw [← Nat.le_div_iff_mul_le (Nat.two_pow_pos _), ← Nat.shiftRight_eq_div_pow]
    exact Nat.le_of_not_lt (not_or.1 hguard).2
  rw [continuation]
  split at h
  · next hlast =>
    cases h
    rw [if_pos hlast]
    rw [Nat.mod_eq_of_lt hlast] at hfit ⊢
    exact ⟨by omega, suffix_cons b _, _, rfl, rfl⟩
  next hmore =>
  split at h
  · cases h
  obtain ⟨hbound, hsuffix, n, hn, rfl⟩ := ih h (by omega)
  refine ⟨hbound, hsuffix.trans (suffix_cons b _), b.toNat % 128 + 128 * n, ?_, ?_⟩
  · rw [if_neg hmore, hn]
    rfl
  rw [Nat.pow_add]
  ring

/-- The decoder undoes the encoder and leaves what comes behind an integer. On any bytes it reads
some of the first ones, and returns the integer that they represent only if it is below `2 ^ 32`. -/
theorem integer_codec :
    (∀ (value prefixBits : Nat) (prefixByte : UInt8) (rest : Bytes), value < 2 ^ 32 →
      4 ≤ prefixBits → prefixBits ≤ 7 → 2 ^ prefixBits ∣ prefixByte.toNat →
      decodeInteger (encodeInteger value prefixBits prefixByte.toNat ++ rest) prefixBits =
        .ok (value, rest)) ∧
    ∀ (data : Bytes) (prefixBits v : Nat) (rest : Bytes), 4 ≤ prefixBits → prefixBits ≤ 7 →
      decodeInteger data prefixBits = .ok (v, rest) →
      (∃ b used, data = b :: used ++ rest) ∧
        represented prefixBits data = some (v, rest) ∧ v < 2 ^ 32 := by
  constructor
  · intro value prefixBits prefixByte rest hv _ hseven hdvd
    refine decodeInteger_encodeInteger rest hv hdvd ?_
    -- both are multiples of the width
    obtain ⟨k, hk⟩ := hdvd
    obtain ⟨m, hm⟩ : 2 ^ prefixBits ∣ 256 := Nat.pow_dvd_pow 2 (Nat.le_succ_of_le hseven)
    have hlt : 2 ^ prefixBits * k < 2 ^ prefixBits * m := by
      rw [← hk, ← hm]
      exact prefixByte.toNat_lt
    have hkm : k < m := Nat.lt_of_mul_lt_mul_left hlt
    calc prefixByte.toNat + 2 ^ prefixBits
      _ = 2 ^ prefixBits * (k + 1) := by rw [hk, Nat.mul_succ]
      _ ≤ 2 ^ prefixBits * m := Nat.mul_le_mul_left _ hkm
      _ = 256 := hm.symm
  intro data prefixBits v rest _ _ h
  cases data with
  | nil => cases h
  | cons b data =>
  have hlow : b.toNat % 2 ^ prefixBits < 2 ^ 32 :=
    Nat.lt_of_le_of_lt (Nat.mod_le _ _) (Nat.lt_trans b.toNat_lt (by decide))
  simp only [decodeInteger, and_pred_eq_mod] at h
  rw [represented]
  split at h
  · next hshort =>
    cases h
    exact ⟨⟨b, [], rfl⟩, if_pos hshort, hlow⟩
  next hlong =>
  obtain ⟨hbound, ⟨used, hused⟩, n, hn, hv⟩ := decodeIntegerTail_sound h hlow
  refine ⟨⟨b, used, by rw [← hused]; rfl⟩, ?_, hbound⟩
  rw [if_neg hlong, hn, hv, Nat.pow_zero, Nat.mul_one]
  rfl

/-! ## Strings -/

theorem decodeString_encodeString (h : str.length < 2 ^ 32) :
    decodeString (encodeString str false ++ rest) = .ok (str, rest) := by
  have hdvd : 2 ^ 7 ∣ 0x00 := ⟨0, rfl⟩
  obtain ⟨b, tail, heq, -, hlt⟩ :=
    encodeInteger_eq_cons str.length hdvd (by decide)
  have hint := decodeInteger_encodeInteger (str ++ rest) h hdvd (by decide)
  simp only [encodeString, Bool.false_eq_true, if_false, append_assoc]
  rw [heq, cons_append] at hint ⊢
  have hb : b &&& 0x80 = 0 := (and_80_eq_zero b).2 (by simpa using hlt)
  simp only [decodeString, hint, hb]
  rw [if_neg (by simp), if_neg (by simp)]
  simp

/-! ## The loop reads at least one byte a round -/

theorem decodeIntegerTail_length
    (h : decodeIntegerTail value shift data = .ok (v, data')) : data'.length < data.length := by
  induction data generalizing value shift with
  | nil => cases h
  | cons b data ih =>
  simp only [decodeIntegerTail] at h
  split at h
  · cases h
  split at h
  · cases h
    simp
  split at h
  · cases h
  have := ih h
  simp only [length_cons]
  omega

theorem decodeInteger_length
    (h : decodeInteger data prefixBits = .ok (v, data')) : data'.length < data.length := by
  cases data with
  | nil => cases h
  | cons b data =>
  simp only [decodeInteger] at h
  split at h
  · cases h
    simp
  have := decodeIntegerTail_length h
  simp only [length_cons]
  omega

theorem decodeString_length
    (h : decodeString data = .ok (str, data')) : data'.length < data.length := by
  cases data with
  | nil => cases h
  | cons b data =>
  simp only [decodeString] at h
  split at h
  · cases h
  next hint =>
  have := decodeInteger_length hint
  split at h
  · cases h
  split at h
  · split at h
    · cases h
    cases h
    simp only [length_drop]
    omega
  cases h
  simp only [length_drop]
  omega

theorem decodeName_length
    (h : dec.decodeName index data = .ok (name, data')) : data'.length ≤ data.length := by
  unfold decodeName at h
  split at h
  · split at h
    · cases h
    cases h
    exact Nat.le_refl _
  exact Nat.le_of_lt (decodeString_length h)

theorem decodeLiteral_length
    (h : dec.decodeLiteral prefixBits data = .ok (field, data')) : data'.length < data.length := by
  unfold decodeLiteral at h
  split at h
  · cases h
  next hint =>
    split at h
    · cases h
    next hname =>
      split at h
      · cases h
      next hval =>
        cases h
        have := decodeInteger_length hint
        have := decodeName_length hname
        have := decodeString_length hval
        omega

/-- More rounds than bytes change nothing. -/
theorem decodeLoop_rounds (h : data.length ≤ rounds) :
    decodeLoop rounds dec data headers size = decodeLoop data.length dec data headers size := by
  induction hn : data.length using Nat.strongRecOn generalizing rounds dec data headers size with
  | ind n ih =>
  subst hn
  cases data with
  | nil => cases rounds <;> rfl
  | cons byte rest =>
  obtain ⟨rounds, rfl⟩ : ∃ r, rounds = r + 1 := ⟨rounds - 1, by simp at h; omega⟩
  have key : ∀ {data : Bytes} dec headers size, data.length < (byte :: rest).length →
      decodeLoop rounds dec data headers size = decodeLoop rest.length dec data headers size := by
    intro data dec headers size hlt
    simp only [length_cons] at h hlt
    have hall : ∀ {n}, data.length ≤ n → decodeLoop n dec data headers size =
        decodeLoop data.length dec data headers size := fun hn =>
      ih _ (by simpa using hlt) hn rfl
    exact (hall (by omega)).trans (hall (by omega)).symm
  simp only [length_cons, decodeLoop]
  split
  · split
    · rfl
    next hint =>
      split
      · rfl
      split
      · rfl
      exact key _ _ _ (decodeInteger_length hint)
  split
  · split
    · rfl
    next hlit =>
      split
      · rfl
      exact key _ _ _ (decodeLiteral_length hlit)
  split
  · split
    · rfl
    next hint =>
      split
      · rfl
      exact key _ _ _ (decodeInteger_length hint)
  split
  · rfl
  next hlit =>
    split
    · rfl
    exact key _ _ _ (decodeLiteral_length hlit)

/-! ## One equation per representation -/

/-- The loop of `decode` with as many rounds as it can need. -/
def decodeFrom (dec : HpackDecoder) (data : Bytes) (headers : List Http2HeaderField) (size : Nat) :
    Except Http2ErrorCode (List Http2HeaderField) × HpackDecoder :=
  decodeLoop data.length dec data headers size

theorem decode_eq_decodeFrom (dec : HpackDecoder) (data : Bytes) :
    dec.decode data = dec.decodeFrom data [] 0 := rfl

@[simp] theorem decodeFrom_nil (headers : List Http2HeaderField) (size : Nat) :
    dec.decodeFrom [] headers size = (.ok headers, dec) := rfl

theorem exceedsListSize_none (h : dec.maxHeaderListSize = none) (size fieldSize : Nat) :
    dec.exceedsListSize size fieldSize = false := by simp [exceedsListSize, h]

variable {headers : List Http2HeaderField} {size : Nat} {field : Http2HeaderField}

theorem decodeFrom_indexed (hlim : dec.maxHeaderListSize = none)
    (hi : index < 2 ^ 32) (hget : dec.getField index = some field) :
    dec.decodeFrom (encodeIndexed index ++ rest) headers size =
      dec.decodeFrom rest (headers ++ [field]) (size + field.size) := by
  have hdvd : 2 ^ 7 ∣ 0x80 := ⟨1, rfl⟩
  obtain ⟨b, tail, heq, hge, -⟩ := encodeInteger_eq_cons index hdvd (by decide)
  have hint := decodeInteger_encodeInteger rest hi hdvd (by decide)
  have hlen := decodeInteger_length hint
  have hb : b &&& 0x80 ≠ 0 := fun h => by
    have := (and_80_eq_zero b).1 h
    omega
  simp only [encodeIndexed, decodeFrom, heq, cons_append, length_cons] at hint hlen ⊢
  simp only [decodeLoop, hint, hget, if_pos hb, exceedsListSize_none hlim, Bool.false_eq_true,
    if_false]
  exact decodeLoop_rounds (by omega)

theorem decodeFrom_sizeUpdate (hn : n < 2 ^ 32) (hmax : n ≤ dec.maxTableSize) :
    dec.decodeFrom (encodeInteger n 5 0x20 ++ rest) headers size =
      (dec.setTableSize n).decodeFrom rest headers size := by
  have hdvd : 2 ^ 5 ∣ 0x20 := ⟨1, rfl⟩
  obtain ⟨b, tail, heq, hge, hlt⟩ := encodeInteger_eq_cons n hdvd (by decide)
  have hint := decodeInteger_encodeInteger rest hn hdvd (by decide)
  have hlen := decodeInteger_length hint
  have h80 : b &&& 0x80 = 0 := (and_80_eq_zero b).2 (by omega)
  have h40 : b &&& 0x40 = 0 := (and_40_eq_zero (by omega)).2 (by omega)
  have h20 : b &&& 0x20 ≠ 0 := fun h => by
    have := (and_20_eq_zero (by omega)).1 h
    omega
  simp only [decodeFrom, heq, cons_append, length_cons] at hint hlen ⊢
  simp only [decodeLoop, hint, h80, h40, ne_eq, not_true_eq_false, if_false, if_pos h20]
  rw [if_neg (by omega)]
  exact decodeLoop_rounds (by omega)

theorem decodeFrom_literalIndexed (hlim : dec.maxHeaderListSize = none) {tail : Bytes}
    (hge : 64 ≤ b.toNat) (hlt : b.toNat < 128)
    (hlit : dec.decodeLiteral 6 (b :: tail) = .ok (field, rest)) :
    dec.decodeFrom (b :: tail) headers size =
      (dec.addToTable field).decodeFrom rest (headers ++ [field]) (size + field.size) := by
  have hlen := decodeLiteral_length hlit
  have h80 : b &&& 0x80 = 0 := (and_80_eq_zero b).2 hlt
  have h40 : b &&& 0x40 ≠ 0 := fun h => by
    have := (and_40_eq_zero hlt).1 h
    omega
  simp only [length_cons] at hlen
  simp only [decodeFrom, length_cons, decodeLoop, hlit, h80, ne_eq, not_true_eq_false,
    if_false, if_pos h40, exceedsListSize_none hlim, Bool.false_eq_true]
  exact decodeLoop_rounds (by omega)

/-- A literal that stays out of the table, given what the decoder reads from it. -/
theorem decodeFrom_literal (hlim : dec.maxHeaderListSize = none) {tail : Bytes}
    (hlt : b.toNat < 32) (hlit : dec.decodeLiteral 4 (b :: tail) = .ok (field, rest)) :
    dec.decodeFrom (b :: tail) headers size =
      dec.decodeFrom rest (headers ++ [field]) (size + field.size) := by
  have hlen := decodeLiteral_length hlit
  have h80 : b &&& 0x80 = 0 := (and_80_eq_zero b).2 (by omega)
  have h40 : b &&& 0x40 = 0 := (and_40_eq_zero (by omega)).2 (by omega)
  have h20 : b &&& 0x20 = 0 := (and_20_eq_zero (by omega)).2 hlt
  simp only [length_cons] at hlen
  simp only [decodeFrom, length_cons, decodeLoop, hlit, h80, h40, h20, ne_eq,
    not_true_eq_false, if_false, exceedsListSize_none hlim, Bool.false_eq_true]
  exact decodeLoop_rounds (by omega)

/-! ## What the decoder reads from an encoded literal -/

section Literal

variable {enc : HpackEncoder} {prefixBits prefixByte nameIndex : Nat} {name value : Bytes}

theorem decodeLiteral_encodeLiteral (hhuff : enc.useHuffman = false)
    (hi : nameIndex < 2 ^ 32) (hpos : 0 < nameIndex) (hdvd : 2 ^ prefixBits ∣ prefixByte)
    (hbyte : prefixByte + 2 ^ prefixBits ≤ 256) (hval : value.length < 2 ^ 32)
    (hget : dec.getField nameIndex = some field)
    (hname : field.name = name) (rest : Bytes) :
    dec.decodeLiteral prefixBits
        (enc.encodeLiteral prefixBits prefixByte nameIndex value ++ rest) =
      .ok (⟨name, value⟩, rest) := by
  rw [HpackEncoder.encodeLiteral, hhuff, append_assoc, decodeLiteral,
    decodeInteger_encodeInteger _ hi hdvd hbyte]
  simp only [decodeName, if_pos hpos, hget, hname, decodeString_encodeString hval]

theorem decodeLiteral_encodeLiteralName (hhuff : enc.useHuffman = false) (hbits : 0 < prefixBits)
    (hdvd : 2 ^ prefixBits ∣ prefixByte) (hbyte : prefixByte < 256)
    (hname : name.length < 2 ^ 32) (hval : value.length < 2 ^ 32) (rest : Bytes) :
    dec.decodeLiteral prefixBits (enc.encodeLiteralName prefixByte name value ++ rest) =
      .ok (⟨name, value⟩, rest) := by
  have hzero : decodeInteger (UInt8.ofNat prefixByte ::
      (encodeString name false ++ (encodeString value false ++ rest))) prefixBits =
      .ok (0, encodeString name false ++ (encodeString value false ++ rest)) := by
    have hone : 2 ≤ 2 ^ prefixBits := by
      calc 2 = 2 ^ 1 := rfl
        _ ≤ 2 ^ prefixBits := Nat.pow_le_pow_right (by decide) hbits
    simp only [decodeInteger, toNat_byte hbyte, and_pred_eq_mod, Nat.mod_eq_zero_of_dvd hdvd]
    rw [if_pos (by omega)]
  rw [HpackEncoder.encodeLiteralName, hhuff, append_assoc, cons_append, decodeLiteral, hzero]
  simp only [decodeName, Nat.lt_irrefl, if_false, decodeString_encodeString hname,
    decodeString_encodeString hval]

section

variable (hlim : dec.maxHeaderListSize = none) (hhuff : enc.useHuffman = false)
include hlim hhuff

theorem decodeFrom_encodeLiteralIndexed (hi : nameIndex < 2 ^ 32) (hpos : 0 < nameIndex)
    (hval : value.length < 2 ^ 32) (hget : dec.getField nameIndex = some field)
    (hname : field.name = name) (rest : Bytes) :
    dec.decodeFrom (enc.encodeLiteralIndexed nameIndex value ++ rest) headers size =
      (dec.addToTable ⟨name, value⟩).decodeFrom rest (headers ++ [⟨name, value⟩])
        (size + Http2HeaderField.size ⟨name, value⟩) := by
  have hdvd : 2 ^ 6 ∣ 0x40 := ⟨1, rfl⟩
  have hlit := decodeLiteral_encodeLiteral hhuff hi hpos hdvd (by decide) hval hget hname rest
  obtain ⟨b, tail, hcons, hge, hlt⟩ := encodeInteger_eq_cons nameIndex hdvd (by decide)
  simp only [HpackEncoder.encodeLiteralIndexed, HpackEncoder.encodeLiteral, hcons,
    cons_append] at hlit ⊢
  exact decodeFrom_literalIndexed hlim hge hlt hlit

theorem decodeFrom_encodeLiteralIndexedName (hname : name.length < 2 ^ 32)
    (hval : value.length < 2 ^ 32) (rest : Bytes) :
    dec.decodeFrom (enc.encodeLiteralIndexedName name value ++ rest) headers size =
      (dec.addToTable ⟨name, value⟩).decodeFrom rest (headers ++ [⟨name, value⟩])
        (size + Http2HeaderField.size ⟨name, value⟩) := by
  have hlit : dec.decodeLiteral 6 (enc.encodeLiteralIndexedName name value ++ rest) = _ :=
    decodeLiteral_encodeLiteralName hhuff (by decide) ⟨1, rfl⟩ (by decide) hname hval rest
  exact decodeFrom_literalIndexed hlim (by decide) (by decide) hlit

/-- The pattern `000xxxxx` covers the literals without indexing and those never indexed. -/
theorem decodeFrom_encodeLiteral (hdvd : 2 ^ 4 ∣ prefixByte) (hbyte : prefixByte + 2 ^ 4 ≤ 32)
    (hi : nameIndex < 2 ^ 32) (hpos : 0 < nameIndex) (hval : value.length < 2 ^ 32)
    (hget : dec.getField nameIndex = some field) (hname : field.name = name) (rest : Bytes) :
    dec.decodeFrom (enc.encodeLiteral 4 prefixByte nameIndex value ++ rest) headers size =
      dec.decodeFrom rest (headers ++ [⟨name, value⟩])
        (size + Http2HeaderField.size ⟨name, value⟩) := by
  have hlit := decodeLiteral_encodeLiteral hhuff hi hpos hdvd (by omega) hval hget hname rest
  obtain ⟨b, tail, hcons, -, hlt⟩ := encodeInteger_eq_cons nameIndex hdvd (by omega)
  simp only [HpackEncoder.encodeLiteral, hcons, cons_append] at hlit ⊢
  exact decodeFrom_literal hlim (by omega) hlit

theorem decodeFrom_encodeLiteralName (hdvd : 2 ^ 4 ∣ prefixByte) (hbyte : prefixByte < 32)
    (hname : name.length < 2 ^ 32) (hval : value.length < 2 ^ 32) (rest : Bytes) :
    dec.decodeFrom (enc.encodeLiteralName prefixByte name value ++ rest) headers size =
      dec.decodeFrom rest (headers ++ [⟨name, value⟩])
        (size + Http2HeaderField.size ⟨name, value⟩) := by
  have hlit : dec.decodeLiteral 4 (enc.encodeLiteralName prefixByte name value ++ rest) = _ :=
    decodeLiteral_encodeLiteralName hhuff (by decide) hdvd (by omega) hname hval rest
  exact decodeFrom_literal hlim (by rw [toNat_byte (by omega)]; exact hbyte) hlit

end

end Literal

end HpackDecoder

end Galay.Http2
