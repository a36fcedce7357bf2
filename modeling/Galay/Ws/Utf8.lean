import Galay.Lib.Utf8
import Galay.Ws.FrameCodec

/-!
# UTF-8 validation (`galay-ws/protoc/ws_frame.cc`, `galay-ws/kernel/ws_reader.h`)

There are three copies of the decoder: on plain bytes, on masked bytes and on masked bytes in
segments. The two on masked bytes have the same loop, which reads one byte at a time through `masked`.
All three accept the encoded texts, and no build's blocks change that.
-/

namespace Galay.Ws

open List
open Lib (xorBytes)

namespace WsFrameParser

/-! ## Masked bytes -/

/-- The scalar loop from `i` on. -/
def isValidUtf8From (masked : Nat → UInt8) (len i : Nat) : Bool :=
  if i < len then
    let byte := masked i
    if byte ≤ 0x7F then isValidUtf8From masked len (i + 1)
    else if byte &&& 0xE0 = 0xC0 then
      if len ≤ i + 1 then false
      else
        let byte2 := masked (i + 1)
        let codepoint := (byte &&& 0x1F).toNat <<< 6 ||| (byte2 &&& 0x3F).toNat
        if !isTrailing byte2 then false
        else if codepoint < 0x80 then false
        else isValidUtf8From masked len (i + 2)
    else if byte &&& 0xF0 = 0xE0 then
      if len ≤ i + 2 then false
      else
        let byte2 := masked (i + 1)
        let byte3 := masked (i + 2)
        let codepoint :=
          (byte &&& 0x0F).toNat <<< 12 ||| (byte2 &&& 0x3F).toNat <<< 6 ||| (byte3 &&& 0x3F).toNat
        if !isTrailing byte2 then false
        else if !isTrailing byte3 then false
        else if codepoint < 0x800 then false
        else if 0xD800 ≤ codepoint ∧ codepoint ≤ 0xDFFF then false
        else isValidUtf8From masked len (i + 3)
    else if byte &&& 0xF8 = 0xF0 then
      if len ≤ i + 3 then false
      else
        let byte2 := masked (i + 1)
        let byte3 := masked (i + 2)
        let byte4 := masked (i + 3)
        let codepoint :=
          (byte &&& 0x07).toNat <<< 18 ||| (byte2 &&& 0x3F).toNat <<< 12 |||
            (byte3 &&& 0x3F).toNat <<< 6 ||| (byte4 &&& 0x3F).toNat
        if !isTrailing byte2 then false
        else if !isTrailing byte3 then false
        else if !isTrailing byte4 then false
        else if codepoint < 0x10000 ∨ 0x10FFFF < codepoint then false
        else isValidUtf8From masked len (i + 4)
    else false
  else true
termination_by len - i

/-- Whole blocks of sixteen bytes that are ASCII once they are unmasked: where the loop over them
stops, from `i` on. -/
def skipMaskedAscii (maskArray : Bytes) : (count : Nat) → (i : Nat) → Bytes → Nat
  | 0, i, _ => i
  | count + 1, i, data =>
    if (xorBytes (data.take 16) maskArray).all fun byte => byte &&& 0x80 = 0 then
      skipMaskedAscii maskArray count (i + 16) (data.drop 16)
    else i

def isValidUtf8MaskedBytes (simd : Bool) (key : MaskingKey) (data : Bytes) : Bool :=
  let maskArray := (List.range 16).map (keyByte key)
  let i := if simd then skipMaskedAscii maskArray (data.length / 16) 0 data else 0
  isValidUtf8From (fun index => data.getD index 0 ^^^ keyByte key index) data.length i

end WsFrameParser

open WsFrameParser

/-- The byte at a position behind `cursor` more bytes of the segments. -/
def maskedAt (key : MaskingKey) (absoluteIndex : Nat) : (cursor : Nat) → IoVecs → UInt8
  | _, [] => 0
  | cursor, iov :: iovecs =>
    if cursor < iov.length then iov.getD cursor 0 ^^^ keyByte key absoluteIndex
    else maskedAt key absoluteIndex (cursor - iov.length) iovecs

def wsIsValidUtf8MaskedIovecs (iovecs : IoVecs) (key : MaskingKey) : Bool :=
  let totalLength := (iovecs.map List.length).sum
  isValidUtf8From (fun index => maskedAt key index index iovecs) totalLength 0

def wsApplyMaskIovecsInPlace (key : MaskingKey) : (logicalIndex : Nat) → IoVecs → IoVecs
  | _, [] => []
  | logicalIndex, iov :: iovecs =>
    maskTail key logicalIndex iov :: wsApplyMaskIovecsInPlace key (logicalIndex + iov.length) iovecs

/-! ## The texts that are accepted -/

namespace WsFrameParser

/-- The bytes combined with the key over and over. -/
def xorKey (key : MaskingKey) (data : Bytes) : Bytes :=
  data.mapIdx fun i byte => byte ^^^ keyByte key i

theorem isTrailing_iff (byte : UInt8) : isTrailing byte = true ↔ Lib.IsTail byte := by
  rw [isTrailing, decide_eq_true_eq, Lib.and_C0]

theorem le_7F_iff (byte : UInt8) : byte ≤ 0x7F ↔ byte.toNat < 128 := by
  rw [UInt8.le_iff_toNat_le]
  exact Nat.lt_succ_iff.symm

theorem not_le_7F {byte : UInt8} (h : 128 ≤ byte.toNat) : ¬ byte ≤ 0x7F := fun hle => by
  have := (le_7F_iff byte).1 hle
  omega

theorem and_E0_ne {byte : UInt8} (h : 224 ≤ byte.toNat) : ¬ byte &&& 0xE0 = 0xC0 := fun heq => by
  have := (Lib.and_E0 byte).1 heq
  omega

theorem and_F0_ne {byte : UInt8} (h : 240 ≤ byte.toNat) : ¬ byte &&& 0xF0 = 0xE0 := fun heq => by
  have := (Lib.and_F0 byte).1 heq
  omega

/-- A character is read in one turn of the loop. -/
theorem isValidUtf8Scalar_charBytes (h : Lib.CharBytes front) (rest : Bytes) :
    isValidUtf8Scalar (front ++ rest) = isValidUtf8Scalar rest := by
  cases h with
  | @one a ha =>
    rw [singleton_append, isValidUtf8Scalar.eq_def]
    simp only [if_pos ((le_7F_iff a).2 ha)]
  | @two a b hlow hhigh hb hmin =>
    have htwo := (Lib.and_E0 a).2 ⟨hlow, hhigh⟩
    have hb := (isTrailing_iff b).2 hb
    rw [cons_append, singleton_append, isValidUtf8Scalar.eq_def]
    simp only [if_neg (not_le_7F (show 128 ≤ a.toNat by omega)), if_pos htwo, hb, Lib.codepoint2_eq,
      Bool.not_true, Bool.false_eq_true, if_false, if_neg (Nat.not_lt.2 hmin)]
  | @three a b c hlow hhigh hb hc hmin hsurrogate =>
    have hthree := (Lib.and_F0 a).2 ⟨hlow, hhigh⟩
    have hb := (isTrailing_iff b).2 hb
    have hc := (isTrailing_iff c).2 hc
    rw [cons_append, cons_append, singleton_append, isValidUtf8Scalar.eq_def]
    simp only [if_neg (not_le_7F (show 128 ≤ a.toNat by omega)), if_neg (and_E0_ne hlow),
      if_pos hthree, hb, hc, Lib.codepoint3_eq, Bool.not_true, Bool.false_eq_true, if_false,
      if_neg (Nat.not_lt.2 hmin), if_neg hsurrogate]
  | @four a b c d hlow hhigh hb hc hd hmin hmax =>
  have hfour := (Lib.and_F8 a).2 ⟨hlow, hhigh⟩
  have hb := (isTrailing_iff b).2 hb
  have hc := (isTrailing_iff c).2 hc
  have hd := (isTrailing_iff d).2 hd
  rw [cons_append, cons_append, cons_append, singleton_append, isValidUtf8Scalar.eq_def]
  simp only [if_neg (not_le_7F (show 128 ≤ a.toNat by omega)),
    if_neg (and_E0_ne (show 224 ≤ a.toNat by omega)), if_neg (and_F0_ne hlow), if_pos hfour, hb, hc,
    hd, Lib.codepoint4_eq, Bool.not_true, Bool.false_eq_true, if_false,
    if_neg (Nat.not_lt.2 hmin), if_neg (Nat.not_lt.2 hmax)]

/-- What has passed the checks of a turn is a character. -/
theorem charBytes_two (hlead : a &&& 0xE0 = 0xC0) (hb : ¬ (!isTrailing b) = true)
    (hmin : ¬ (a &&& 0x1F).toNat <<< 6 ||| (b &&& 0x3F).toNat < 0x80) : Lib.CharBytes [a, b] := by
  obtain ⟨hlow, hhigh⟩ := (Lib.and_E0 a).1 hlead
  rw [Bool.not_eq_true', Bool.not_eq_false, isTrailing_iff] at hb
  rw [Lib.codepoint2_eq] at hmin
  exact .two hlow hhigh hb (Nat.not_lt.1 hmin)

theorem charBytes_three (hlead : a &&& 0xF0 = 0xE0)
    (hb : ¬ (!isTrailing b) = true) (hc : ¬ (!isTrailing c) = true)
    (hmin : ¬ (a &&& 0x0F).toNat <<< 12 ||| (b &&& 0x3F).toNat <<< 6 ||| (c &&& 0x3F).toNat < 0x800)
    (hsurrogate :
      ¬ (0xD800 ≤ (a &&& 0x0F).toNat <<< 12 ||| (b &&& 0x3F).toNat <<< 6 ||| (c &&& 0x3F).toNat ∧
        (a &&& 0x0F).toNat <<< 12 ||| (b &&& 0x3F).toNat <<< 6 ||| (c &&& 0x3F).toNat ≤ 0xDFFF)) :
    Lib.CharBytes [a, b, c] := by
  obtain ⟨hlow, hhigh⟩ := (Lib.and_F0 a).1 hlead
  rw [Bool.not_eq_true', Bool.not_eq_false, isTrailing_iff] at hb hc
  rw [Lib.codepoint3_eq] at hmin hsurrogate
  exact .three hlow hhigh hb hc (Nat.not_lt.1 hmin) hsurrogate

theorem charBytes_four (hlead : a &&& 0xF8 = 0xF0)
    (hb : ¬ (!isTrailing b) = true) (hc : ¬ (!isTrailing c) = true) (hd : ¬ (!isTrailing d) = true)
    (hrange : ¬ ((a &&& 0x07).toNat <<< 18 ||| (b &&& 0x3F).toNat <<< 12 |||
        (c &&& 0x3F).toNat <<< 6 ||| (d &&& 0x3F).toNat < 0x10000 ∨
      0x10FFFF < (a &&& 0x07).toNat <<< 18 ||| (b &&& 0x3F).toNat <<< 12 |||
        (c &&& 0x3F).toNat <<< 6 ||| (d &&& 0x3F).toNat)) : Lib.CharBytes [a, b, c, d] := by
  obtain ⟨hlow, hhigh⟩ := (Lib.and_F8 a).1 hlead
  rw [Bool.not_eq_true', Bool.not_eq_false, isTrailing_iff] at hb hc hd
  rw [Lib.codepoint4_eq, not_or] at hrange
  exact .four hlow hhigh hb hc hd (Nat.not_lt.1 hrange.1) (Nat.not_lt.1 hrange.2)

theorem utf8Text_of_isValidUtf8Scalar (h : isValidUtf8Scalar data = true) : Lib.Utf8Text data := by
  fun_induction isValidUtf8Scalar data with
  | case1 => exact .nil
  | case2 byte rest hone ih => exact .cons (.one ((le_7F_iff byte).1 hone)) (ih h)
  | case5 byte hnot hlead byte2 rest codepoint hb hmin ih =>
    exact .cons (charBytes_two hlead hb hmin) (ih h)
  | case11 byte hnot hnot' hlead byte2 byte3 rest codepoint hb hc hmin hsurrogate ih =>
    exact .cons (charBytes_three hlead hb hc hmin hsurrogate) (ih h)
  | case18 byte hnot hnot' hnot'' hlead byte2 byte3 byte4 rest codepoint hb hc hd hmin hmax ih =>
    exact .cons (charBytes_four hlead hb hc hd (not_or.2 ⟨hmin, hmax⟩)) (ih h)
  | _ => cases h

theorem isValidUtf8Scalar_iff (data : Bytes) :
    isValidUtf8Scalar data = true ↔ Lib.Utf8Text data := by
  refine ⟨utf8Text_of_isValidUtf8Scalar, fun h => ?_⟩
  induction h with
  | nil => exact isValidUtf8Scalar.eq_1
  | cons hfront hrest ih => rw [isValidUtf8Scalar_charBytes hfront, ih]

/-! ## The loop on masked bytes -/

section

variable {masked : Nat → UInt8} {len : Nat}

/-- The bytes that the loop has before it. -/
def bytesFrom (masked : Nat → UInt8) (len i : Nat) : Bytes :=
  (List.range' i (len - i)).map masked

variable {i : Nat}

theorem bytesFrom_lt (h : i < len) :
    bytesFrom masked len i = masked i :: bytesFrom masked len (i + 1) := by
  have hlen : len - i = (len - (i + 1)) + 1 := by omega
  rw [bytesFrom, hlen, range'_succ, map_cons]
  rfl

theorem bytesFrom_ge (h : ¬ i < len) : bytesFrom masked len i = [] := by
  rw [bytesFrom, Nat.sub_eq_zero_of_le (Nat.not_lt.1 h)]
  rfl

/-- The first of them. -/
theorem bytesFrom_eq_cons {rest : Bytes} (h : bytesFrom masked len i = byte :: rest) :
    i < len ∧ masked i = byte ∧ bytesFrom masked len (i + 1) = rest := by
  by_cases hlt : i < len
  · rw [bytesFrom_lt hlt, List.cons.injEq] at h
    exact ⟨hlt, h⟩
  rw [bytesFrom_ge hlt] at h
  cases h

theorem isValidUtf8From_charBytes (hfront : Lib.CharBytes front)
    (h : bytesFrom masked len i = front ++ rest) :
    isValidUtf8From masked len i = isValidUtf8From masked len (i + front.length) ∧
      bytesFrom masked len (i + front.length) = rest := by
  cases hfront with
  | @one a ha =>
    obtain ⟨hi, rfl, hrest⟩ := bytesFrom_eq_cons h
    refine ⟨?_, hrest⟩
    rw [isValidUtf8From.eq_def]
    simp only [if_pos hi, if_pos ((le_7F_iff _).2 ha)]
    rfl
  | @two a b hlow hhigh hb hmin =>
    obtain ⟨hi, rfl, hnext⟩ := bytesFrom_eq_cons h
    obtain ⟨hi', rfl, hrest⟩ := bytesFrom_eq_cons hnext
    refine ⟨?_, hrest⟩
    have htwo := (Lib.and_E0 _).2 ⟨hlow, hhigh⟩
    have hb := (isTrailing_iff _).2 hb
    rw [isValidUtf8From.eq_def]
    simp only [if_pos hi, if_neg (not_le_7F (show 128 ≤ (masked i).toNat by omega)), if_pos htwo,
      if_neg (Nat.not_le.2 hi'), hb, Lib.codepoint2_eq, Bool.not_true, Bool.false_eq_true, if_false,
      if_neg (Nat.not_lt.2 hmin)]
    rfl
  | @three a b c hlow hhigh hb hc hmin hsurrogate =>
    obtain ⟨hi, rfl, hsecond⟩ := bytesFrom_eq_cons h
    obtain ⟨-, rfl, hthird⟩ := bytesFrom_eq_cons hsecond
    obtain ⟨hi', rfl, hrest⟩ := bytesFrom_eq_cons hthird
    refine ⟨?_, hrest⟩
    have hthree := (Lib.and_F0 _).2 ⟨hlow, hhigh⟩
    have hb := (isTrailing_iff _).2 hb
    have hc := (isTrailing_iff _).2 hc
    rw [isValidUtf8From.eq_def]
    simp only [if_pos hi, if_neg (not_le_7F (show 128 ≤ (masked i).toNat by omega)),
      if_neg (and_E0_ne hlow), if_pos hthree, if_neg (Nat.not_le.2 hi'), hb, hc, Lib.codepoint3_eq,
      Bool.not_true, Bool.false_eq_true, if_false, if_neg (Nat.not_lt.2 hmin), if_neg hsurrogate]
    rfl
  | @four a b c d hlow hhigh hb hc hd hmin hmax =>
  obtain ⟨hi, rfl, hsecond⟩ := bytesFrom_eq_cons h
  obtain ⟨-, rfl, hthird⟩ := bytesFrom_eq_cons hsecond
  obtain ⟨-, rfl, hfourth⟩ := bytesFrom_eq_cons hthird
  obtain ⟨hi', rfl, hrest⟩ := bytesFrom_eq_cons hfourth
  refine ⟨?_, hrest⟩
  have hfour := (Lib.and_F8 _).2 ⟨hlow, hhigh⟩
  have hb := (isTrailing_iff _).2 hb
  have hc := (isTrailing_iff _).2 hc
  have hd := (isTrailing_iff _).2 hd
  have hrange := not_or.2 ⟨Nat.not_lt.2 hmin, Nat.not_lt.2 hmax⟩
  rw [isValidUtf8From.eq_def]
  simp only [if_pos hi, if_neg (not_le_7F (show 128 ≤ (masked i).toNat by omega)),
    if_neg (and_E0_ne (show 224 ≤ (masked i).toNat by omega)), if_neg (and_F0_ne hlow),
    if_pos hfour, if_neg (Nat.not_le.2 hi'), hb, hc, hd, Lib.codepoint4_eq, Bool.not_true,
    Bool.false_eq_true, if_false, if_neg hrange]
  rfl

theorem utf8Text_of_isValidUtf8From (h : isValidUtf8From masked len i = true) :
    Lib.Utf8Text (bytesFrom masked len i) := by
  fun_induction isValidUtf8From masked len i with
  | case1 i hi byte hone ih =>
    rw [bytesFrom_lt hi]
    exact .cons (.one ((le_7F_iff byte).1 hone)) (ih h)
  | case5 i hi byte hnot hlead hlen byte2 codepoint hb hmin ih =>
    rw [bytesFrom_lt hi, bytesFrom_lt (show i + 1 < len by omega)]
    exact .cons (charBytes_two hlead hb hmin) (ih h)
  | case11 i hi byte hnot hnot' hlead hlen byte2 byte3 codepoint hb hc hmin hsurrogate ih =>
    rw [bytesFrom_lt hi, bytesFrom_lt (show i + 1 < len by omega),
      bytesFrom_lt (show i + 1 + 1 < len by omega)]
    exact .cons (charBytes_three hlead hb hc hmin hsurrogate) (ih h)
  | case17 i hi byte hnot hnot' hnot'' hlead hlen byte2 byte3 byte4 codepoint hb hc hd hrange ih =>
    rw [bytesFrom_lt hi, bytesFrom_lt (show i + 1 < len by omega),
      bytesFrom_lt (show i + 1 + 1 < len by omega), bytesFrom_lt (show i + 1 + 1 + 1 < len by omega)]
    exact .cons (charBytes_four hlead hb hc hd hrange) (ih h)
  | case19 i hi =>
    rw [bytesFrom_ge hi]
    exact .nil
  | _ => cases h

theorem isValidUtf8From_of_utf8Text (h : Lib.Utf8Text data)
    (hdata : bytesFrom masked len i = data) : isValidUtf8From masked len i = true := by
  induction h generalizing i with
  | nil =>
    have hend : ¬ i < len := fun hlt => by
      rw [bytesFrom_lt hlt] at hdata
      cases hdata
    rw [isValidUtf8From.eq_def, if_neg hend]
  | cons hfront hrest ih =>
  obtain ⟨hturn, hnext⟩ := isValidUtf8From_charBytes hfront hdata
  rw [hturn, ih hnext]

/-- The copies on masked bytes accept what the one on plain bytes accepts. -/
theorem isValidUtf8From_eq (i : Nat) :
    isValidUtf8From masked len i = isValidUtf8Scalar (bytesFrom masked len i) := by
  rw [Bool.eq_iff_iff, isValidUtf8Scalar_iff]
  exact ⟨utf8Text_of_isValidUtf8From, fun h => isValidUtf8From_of_utf8Text h rfl⟩

end

theorem getElem_maskTail (key : MaskingKey) (hj : j < data.length)
    (hj' : j < (maskTail key i data).length) :
    (maskTail key i data)[j] = data[j] ^^^ keyByte key (i + j) := by
  induction data generalizing i j with
  | nil => cases hj
  | cons b data ih =>
  cases j with
  | zero => rfl
  | succ j =>
  simp only [maskTail, getElem_cons_succ]
  rw [ih (Nat.lt_of_succ_lt_succ hj), Nat.add_right_comm, Nat.add_assoc]

theorem maskTail_eq_xorKey (key : MaskingKey) (data : Bytes) :
    maskTail key 0 data = xorKey key data := by
  refine ext_getElem ?_ fun j hj hj' => ?_
  · rw [length_maskTail, xorKey, length_mapIdx]
  rw [length_maskTail] at hj
  simp only [xorKey, getElem_mapIdx]
  rw [getElem_maskTail key hj, Nat.zero_add]

theorem bytesFrom_masked {data : Bytes}
    (hmasked : ∀ j, (hj : j < data.length) → masked j = data[j] ^^^ keyByte key j) (i : Nat) :
    bytesFrom masked data.length i = maskTail key i (data.drop i) := by
  refine ext_getElem ?_ fun j hj hj' => ?_
  · rw [length_maskTail, bytesFrom, length_map, length_range', length_drop]
  rw [length_maskTail, length_drop] at hj'
  rw [getElem_maskTail key (by rw [length_drop]; exact hj')]
  simp only [bytesFrom, getElem_map, getElem_range', getElem_drop, Nat.one_mul]
  exact hmasked (i + j) (by omega)

theorem isValidUtf8Scalar_skipMaskedAscii (key : MaskingKey) (data : Bytes) (count i : Nat)
    (hi : 4 ∣ i) (hcount : i + count * 16 ≤ data.length) :
    let last := skipMaskedAscii (keyBytes key 16) count i (data.drop i)
    isValidUtf8Scalar (maskTail key last (data.drop last)) =
      isValidUtf8Scalar (maskTail key i (data.drop i)) := by
  induction count generalizing i with
  | zero => rfl
  | succ count ih =>
  intro last
  have hblock : ((data.drop i).take 16).length = 16 := by
    rw [length_take, length_drop]
    omega
  have hmask : xorBytes ((data.drop i).take 16) (keyBytes key 16) =
      maskTail key i ((data.drop i).take 16) := by
    rw [maskTail_four_mul hi, ← xorBytes_keyBytes, hblock]
  by_cases hascii : (maskTail key i ((data.drop i).take 16)).all fun byte => byte &&& 0x80 = 0
  · have hlast : last = skipMaskedAscii (keyBytes key 16) count (i + 16) (data.drop (i + 16)) := by
      show skipMaskedAscii _ _ _ _ = _
      rw [skipMaskedAscii, hmask, if_pos hascii, drop_drop]
    have hsplit := maskTail_append key i ((data.drop i).take 16) ((data.drop i).drop 16)
    rw [take_append_drop, hblock, drop_drop] at hsplit
    rw [hlast, ih (i + 16) (by omega) (by omega), hsplit, isValidUtf8Scalar_append hascii]
  have hlast : last = i := by
    show skipMaskedAscii _ _ _ _ = _
    rw [skipMaskedAscii, hmask, if_neg hascii]
  rw [hlast]

theorem isValidUtf8MaskedBytes_eq (simd : Bool) (key : MaskingKey) (data : Bytes) :
    isValidUtf8MaskedBytes simd key data = isValidUtf8Scalar (xorKey key data) := by
  have hmasked : ∀ j, (hj : j < data.length) →
      data.getD j 0 ^^^ keyByte key j = data[j] ^^^ keyByte key j := by
    intro j hj
    rw [getD_eq_getElem?_getD, getElem?_eq_getElem hj, Option.getD_some]
  have hscalar (i : Nat) : isValidUtf8From (fun index => data.getD index 0 ^^^ keyByte key index)
      data.length i = isValidUtf8Scalar (maskTail key i (data.drop i)) := by
    rw [isValidUtf8From_eq, bytesFrom_masked hmasked]
  unfold isValidUtf8MaskedBytes
  dsimp only
  rw [hscalar, ← maskTail_eq_xorKey]
  cases simd with
  | false => rfl
  | true =>
  have hcount : 0 + data.length / 16 * 16 ≤ data.length := by omega
  exact isValidUtf8Scalar_skipMaskedAscii key data (data.length / 16) 0 ⟨0, rfl⟩ hcount

/-! ## Masked bytes in segments -/

theorem maskedAt_eq (key : MaskingKey) (index : Nat) (hcursor : cursor < iovecs.flatten.length) :
    maskedAt key index cursor iovecs = iovecs.flatten[cursor] ^^^ keyByte key index := by
  induction iovecs generalizing cursor with
  | nil => cases hcursor
  | cons iov iovecs ih =>
  rw [maskedAt]
  simp only [flatten_cons] at hcursor ⊢
  split
  · next hlt =>
    rw [getElem_append_left hlt, getD_eq_getElem?_getD, getElem?_eq_getElem hlt, Option.getD_some]
  next hge =>
  rw [length_append] at hcursor
  rw [getElem_append_right (Nat.not_lt.1 hge), ih (by omega)]

theorem wsIsValidUtf8MaskedIovecs_eq (iovecs : IoVecs) (key : MaskingKey) :
    wsIsValidUtf8MaskedIovecs iovecs key = isValidUtf8Scalar (xorKey key iovecs.flatten) := by
  have hmasked : ∀ j, (hj : j < iovecs.flatten.length) →
      maskedAt key j j iovecs = iovecs.flatten[j] ^^^ keyByte key j :=
    fun j hj => maskedAt_eq key j hj
  unfold wsIsValidUtf8MaskedIovecs
  dsimp only
  rw [← length_flatten, isValidUtf8From_eq, bytesFrom_masked hmasked, drop_zero, maskTail_eq_xorKey]

theorem flatten_wsApplyMaskIovecsInPlace (key : MaskingKey) (logicalIndex : Nat) (iovecs : IoVecs) :
    (wsApplyMaskIovecsInPlace key logicalIndex iovecs).flatten =
      maskTail key logicalIndex iovecs.flatten := by
  induction iovecs generalizing logicalIndex with
  | nil => rfl
  | cons iov iovecs ih =>
  rw [wsApplyMaskIovecsInPlace, flatten_cons, flatten_cons, ih, maskTail_append]

/-- Validation accepts the encoded texts, in all three copies and every build, and masking combines
each byte with its byte of the key, also in segments; twice, it changes nothing. -/
theorem utf8_and_masks (simd : Bool) (key : MaskingKey) :
    (∀ data, isValidUtf8Bytes simd data = true ↔
      ∃ chars : List Char, data = chars.flatMap String.utf8EncodeChar) ∧
    (∀ data, isValidUtf8MaskedBytes simd key data = isValidUtf8Bytes simd (xorKey key data)) ∧
    (∀ iovecs, wsIsValidUtf8MaskedIovecs iovecs key =
      isValidUtf8Bytes simd (xorKey key iovecs.flatten)) ∧
    (∀ data, applyMaskBytesImpl simd key data = xorKey key data) ∧
    (∀ data, applyMaskBytesImpl simd key (applyMaskBytesImpl simd key data) = data) ∧
    (∀ iovecs, (wsApplyMaskIovecsInPlace key 0 iovecs).flatten = xorKey key iovecs.flatten) := by
  refine ⟨fun data => ?_, fun data => ?_, fun iovecs => ?_, fun data => ?_, fun data => ?_,
    fun iovecs => ?_⟩
  · rw [isValidUtf8Bytes_eq, isValidUtf8Scalar_iff, Lib.utf8Text_iff]
  · rw [isValidUtf8MaskedBytes_eq, isValidUtf8Bytes_eq]
  · rw [wsIsValidUtf8MaskedIovecs_eq, isValidUtf8Bytes_eq]
  · rw [applyMaskBytesImpl_eq, maskTail_eq_xorKey]
  · rw [applyMaskBytesImpl_eq, applyMaskBytesImpl_eq, maskTail_maskTail]
  · rw [flatten_wsApplyMaskIovecsInPlace, maskTail_eq_xorKey]

end WsFrameParser

end Galay.Ws
