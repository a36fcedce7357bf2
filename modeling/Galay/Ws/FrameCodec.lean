import Galay.Ws.Frame

/-!
# The frame codec round trip

Masking by blocks and words is masking byte by byte, the cursor reads the bytes of its segments in
order, and the parser gives back the frame that an encoder has written.
-/

namespace Galay.Ws

open List
open Lib (toBe ofBe xorBytes)

namespace WsFrameParser

/-! ## Masking, byte by byte -/

variable {key : MaskingKey}

variable (key)

theorem keyByte_add (i k : Nat) : keyByte key (4 * k + i) = keyByte key i := by
  rw [keyByte, keyByte, Nat.mul_add_mod]

@[simp] theorem length_maskTail (i : Nat) (data : Bytes) :
    (maskTail key i data).length = data.length := by
  induction data generalizing i with
  | nil => rfl
  | cons b data ih => rw [maskTail, length_cons, ih, length_cons]

theorem maskTail_append (i : Nat) (left right : Bytes) :
    maskTail key i (left ++ right) =
      maskTail key i left ++ maskTail key (i + left.length) right := by
  induction left generalizing i with
  | nil => rfl
  | cons b left ih =>
  rw [cons_append, maskTail, ih, maskTail, cons_append, length_cons,
    Nat.add_right_comm, Nat.add_assoc i]

/-- Four bytes further on the key starts again. -/
theorem maskTail_add (i k : Nat) (data : Bytes) :
    maskTail key (4 * k + i) data = maskTail key i data := by
  induction data generalizing i with
  | nil => rfl
  | cons b data ih => rw [maskTail, maskTail, keyByte_add, Nat.add_assoc, ih]

theorem maskTail_maskTail (i : Nat) (data : Bytes) :
    maskTail key i (maskTail key i data) = data := by
  induction data generalizing i with
  | nil => rfl
  | cons b data ih => rw [maskTail, maskTail, ih, UInt8.xor_assoc, UInt8.xor_self, UInt8.xor_zero]

/-- The bytes of the key for `n` positions. -/
def keyBytes (n : Nat) : Bytes := (List.range n).map (keyByte key)

theorem xorBytes_keyBytes (data : Bytes) :
    xorBytes data (keyBytes key data.length) = maskTail key 0 data := by
  have hshift : ∀ i, xorBytes data ((List.range' i data.length).map (keyByte key)) =
      maskTail key i data := by
    induction data with
    | nil => intro i; rfl
    | cons b data ih =>
    intro i
    rw [length_cons, range'_succ, map_cons, maskTail, ← ih (i + 1)]
    rfl
  rw [keyBytes, range_eq_range', hshift 0]

theorem keyBytes_four : keyBytes key 4 = key.1 := by
  obtain ⟨bytes, hlen⟩ := key
  obtain ⟨a, b, c, d, rfl⟩ := List.length_eq_four.1 hlen
  rfl

theorem keyBytes_eight : keyBytes key 8 = key.1 ++ key.1 := by
  obtain ⟨bytes, hlen⟩ := key
  obtain ⟨a, b, c, d, rfl⟩ := List.length_eq_four.1 hlen
  rfl

variable {key}

theorem maskWord_eq (hrepeated : repeated = keyBytes key block.length) :
    maskWord repeated block = maskTail key 0 block := by
  have hlen : block.length = repeated.length := by
    rw [hrepeated, keyBytes, length_map, length_range]
  rw [maskWord, Lib.storeWord_xor block repeated hlen, hrepeated, xorBytes_keyBytes]

/-- A position that is a multiple of four starts the key again. -/
theorem maskTail_four_mul (hn : 4 ∣ n) (data : Bytes) :
    maskTail key n data = maskTail key 0 data := by
  obtain ⟨k, rfl⟩ := hn
  exact maskTail_add key 0 k data

theorem maskTail_take_append {data : Bytes} {n : Nat} (hn : 4 ∣ n) (hle : n ≤ data.length) :
    maskTail key 0 (data.take n) ++ maskTail key 0 (data.drop n) = maskTail key 0 data := by
  have hsplit := maskTail_append key 0 (data.take n) (data.drop n)
  rw [take_append_drop, length_take_of_le hle, Nat.zero_add, maskTail_four_mul hn] at hsplit
  exact hsplit.symm

theorem maskBlocks_eq (hwidth : 4 ∣ width)
    (hblock : ∀ block, block.length = width → maskBlock block = maskTail key 0 block)
    {count : Nat} (hcount : count * width ≤ data.length) : maskBlocks width maskBlock count data =
      (maskTail key 0 (data.take (count * width)), data.drop (count * width)) := by
  induction count generalizing data with
  | zero => simp [maskBlocks, maskTail]
  | succ count ih =>
  rw [Nat.succ_mul] at hcount ⊢
  have htake : (data.take width).length = width := by
    rw [length_take]
    omega
  have hsplit := @maskTail_take_append key (data.take (width + count * width)) width hwidth
    (by rw [length_take]; omega)
  rw [take_take, Nat.min_eq_left (Nat.le_add_right _ _), drop_take,
    Nat.add_sub_cancel_left] at hsplit
  rw [maskBlocks, ih (by rw [length_drop]; omega), hblock _ htake, drop_drop,
    Nat.add_comm (count * width), ← hsplit]

theorem applyMaskBytesImpl_eq (simd : Bool) (key : MaskingKey) (data : Bytes) :
    applyMaskBytesImpl simd key data = maskTail key 0 data := by
  -- Each of the three block loops masks a part and leaves the rest at a multiple of four.
  have hvectors : ∀ data : Bytes,
      ∃ n, 4 ∣ n ∧ n ≤ data.length ∧
        (if simd then maskBlocks 16 (xorBytes · (keyBytes key 16)) (data.length / 16) data
          else ([], data)) = (maskTail key 0 (data.take n), data.drop n) := by
    intro data
    cases simd with
    | true =>
      refine ⟨data.length / 16 * 16, ⟨data.length / 16 * 4, by omega⟩, Nat.div_mul_le_self _ _, ?_⟩
      refine maskBlocks_eq (by decide) (fun block hlen => ?_) (Nat.div_mul_le_self _ _)
      rw [← xorBytes_keyBytes, hlen]
    | false => exact ⟨0, ⟨0, rfl⟩, Nat.zero_le _, rfl⟩
  have hwords : ∀ data : Bytes,
      ∃ n, 4 ∣ n ∧ n ≤ data.length ∧
        maskBlocks 8 (maskWord (key.1 ++ key.1)) (data.length / 8) data =
          (maskTail key 0 (data.take n), data.drop n) := by
    intro data
    refine ⟨data.length / 8 * 8, ⟨data.length / 8 * 2, by omega⟩, Nat.div_mul_le_self _ _, ?_⟩
    refine maskBlocks_eq (by decide) (fun block hlen => maskWord_eq ?_) (Nat.div_mul_le_self _ _)
    rw [hlen, keyBytes_eight]
  have hhalfWord : ∀ data : Bytes,
      ∃ n, 4 ∣ n ∧ n ≤ data.length ∧
        (if 4 ≤ data.length then maskBlocks 4 (maskWord key.1) 1 data else ([], data)) =
          (maskTail key 0 (data.take n), data.drop n) := by
    intro data
    by_cases hlen : 4 ≤ data.length
    · refine ⟨1 * 4, ⟨1, rfl⟩, hlen, ?_⟩
      rw [if_pos hlen]
      refine maskBlocks_eq (by decide) (fun block hblock => maskWord_eq ?_) hlen
      rw [hblock, keyBytes_four]
    exact ⟨0, ⟨0, rfl⟩, Nat.zero_le _, by rw [if_neg hlen]; rfl⟩
  obtain ⟨n₁, hdvd₁, hle₁, heq₁⟩ := hvectors data
  obtain ⟨n₂, hdvd₂, hle₂, heq₂⟩ := hwords (data.drop n₁)
  obtain ⟨n₃, hdvd₃, hle₃, heq₃⟩ := hhalfWord ((data.drop n₁).drop n₂)
  rw [applyMaskBytesImpl]
  rw [keyBytes] at heq₁
  simp only [heq₁, heq₂, heq₃, length_maskTail, length_take_of_le hle₁,
    length_take_of_le hle₂, length_take_of_le hle₃]
  rw [maskTail_four_mul (Nat.dvd_add (Nat.dvd_add hdvd₁ hdvd₂) hdvd₃), append_assoc,
    maskTail_take_append hdvd₃ hle₃, append_assoc, maskTail_take_append hdvd₂ hle₂,
    maskTail_take_append hdvd₁ hle₁]

end WsFrameParser

/-! ## The cursor reads the bytes of its segments in order -/

namespace IovecCursor

/-- The bytes that are left. -/
def unread (iovecs : IoVecs) (offset : Nat) : Bytes :=
  match iovecs with
  | [] => []
  | iov :: iovecs => iov.drop offset ++ iovecs.flatten

theorem unread_zero (iovecs : IoVecs) : unread iovecs 0 = iovecs.flatten := by
  cases iovecs with
  | nil => rfl
  | cons iov iovecs => rfl

theorem readLoop_some {iovecs : IoVecs} {offset : Nat} (h : need ≤ (unread iovecs offset).length) :
    ∃ iovecs' offset', readLoop iovecs offset need =
        some ((unread iovecs offset).take need, iovecs', offset') ∧
      unread iovecs' offset' = (unread iovecs offset).drop need := by
  induction iovecs generalizing offset need with
  | nil =>
    have hneed : need = 0 := Nat.le_zero.1 h
    exact ⟨[], offset, by rw [readLoop, if_pos hneed, hneed]; rfl, by rw [hneed]; rfl⟩
  | cons iov iovecs ih =>
  by_cases hneed : need = 0
  · exact ⟨iov :: iovecs, offset, by rw [readLoop, if_pos hneed, hneed]; rfl, by rw [hneed]; rfl⟩
  rw [readLoop, if_neg hneed]
  by_cases hpast : iov.length ≤ offset
  · rw [if_pos hpast]
    have hunread : unread (iov :: iovecs) offset = unread iovecs 0 := by
      rw [unread_zero, unread, drop_eq_nil_of_le hpast, nil_append]
    rw [hunread] at h ⊢
    exact ih h
  rw [if_neg hpast]
  simp only
  split
  · -- The rest of the current segment is taken, and more from the next ones.
    next hall =>
    have htaken : min (iov.length - offset) need = iov.length - offset := by omega
    have hwhole : (iov.drop offset).take (iov.length - offset) = iov.drop offset :=
      take_of_length_le (by rw [length_drop])
    simp only [unread, length_append, length_drop] at h
    have hrest : need - (iov.length - offset) ≤ (unread iovecs 0).length := by
      rw [unread_zero]
      omega
    obtain ⟨iovecs', offset', hread, hleft⟩ := ih hrest
    refine ⟨iovecs', offset', ?_, ?_⟩
    · rw [htaken, hread, hwhole, unread_zero]
      simp only [unread, take_append, length_drop]
      rw [take_of_length_le (l := iov.drop offset) (by rw [length_drop]; omega)]
    have hpassed : (iov.drop offset).drop need = [] :=
      drop_eq_nil_of_le (by rw [length_drop]; omega)
    rw [hleft, unread_zero, unread, drop_append, length_drop, hpassed, nil_append]
  next hpart =>
  have htaken : min (iov.length - offset) need = need := by omega
  have hle : need ≤ (iov.drop offset).length := by rw [length_drop]; omega
  refine ⟨iov :: iovecs, offset + need, ?_, ?_⟩
  · rw [htaken, unread, take_append_of_le_length hle]
  rw [unread, unread, drop_append_of_le_length hle, drop_drop]

theorem readLoop_none {iovecs : IoVecs} {offset : Nat}
    (h : (unread iovecs offset).length < need) : readLoop iovecs offset need = none := by
  induction iovecs generalizing offset need with
  | nil =>
    have hneed : need ≠ 0 := Nat.ne_of_gt h
    rw [readLoop, if_neg hneed]
  | cons iov iovecs ih =>
  simp only [unread, length_append, length_drop] at h
  rw [readLoop, if_neg (by omega)]
  by_cases hpast : iov.length ≤ offset
  · rw [if_pos hpast]
    exact ih (by rw [unread_zero]; omega)
  rw [if_neg hpast]
  have htaken : min (iov.length - offset) need = iov.length - offset := by omega
  simp only [htaken]
  rw [if_pos (by omega), ih (by rw [unread_zero]; omega)]

/-- A cursor that has consumed `n` bytes and has `bytes` before it. -/
structure Shows (cursor : IovecCursor) (n : Nat) (bytes : Bytes) : Prop where
  unread : unread cursor.iovecs cursor.offset = bytes
  consumed : cursor.consumed = n
  total : cursor.totalLength = n + bytes.length

variable {cursor : IovecCursor} {n len : Nat} {bytes front : Bytes}

theorem Shows.remaining (H : cursor.Shows n bytes) : cursor.remaining = bytes.length := by
  rw [IovecCursor.remaining, H.total, H.consumed, Nat.add_sub_cancel_left]

theorem Shows.readBytes (H : cursor.Shows n (front ++ bytes)) (hlen : front.length = len) :
    ∃ cursor', cursor.readBytes len = some (front, cursor') ∧ cursor'.Shows (n + len) bytes := by
  have hle : len ≤ (IovecCursor.unread cursor.iovecs cursor.offset).length := by
    rw [H.unread, length_append]
    omega
  obtain ⟨iovecs', offset', hread, hleft⟩ := readLoop_some hle
  rw [H.unread, ← hlen, take_left] at hread
  rw [H.unread, ← hlen, drop_left] at hleft
  rw [IovecCursor.readBytes, ← hlen, hread]
  refine ⟨_, rfl, hleft, ?_, ?_⟩
  · rw [H.consumed]
  have htotal := H.total
  rw [length_append] at htotal
  simp only [htotal]
  omega

theorem Shows.readByte (H : cursor.Shows n (b :: bytes)) :
    ∃ cursor', cursor.readByte = some (b, cursor') ∧ cursor'.Shows (n + 1) bytes := by
  have hsplit : b :: bytes = [b] ++ bytes := rfl
  rw [hsplit] at H
  obtain ⟨cursor', hread, hshows⟩ := H.readBytes (@length_singleton _ b)
  exact ⟨cursor', by rw [IovecCursor.readByte, hread], hshows⟩

theorem Shows.readBytes_none (H : cursor.Shows n bytes) (hlen : bytes.length < len) :
    cursor.readBytes len = none := by
  rw [IovecCursor.readBytes, readLoop_none (by rw [H.unread]; exact hlen)]

theorem shows_start (iovecs : IoVecs) :
    Shows ⟨iovecs, 0, WsFrameParser.getTotalLength iovecs, 0⟩ 0 iovecs.flatten :=
  ⟨unread_zero iovecs, rfl, by rw [WsFrameParser.getTotalLength, length_flatten,
    Nat.zero_add]⟩

end IovecCursor

/-! ## The header -/

variable (payloadLen : Nat)

/-- The length byte without its mask bit, and the bytes that extend it. -/
def lengthByte : UInt8 :=
  if payloadLen < 126 then UInt8.ofNat payloadLen else if payloadLen ≤ 0xFFFF then 126 else 127

def lengthExtension : Bytes :=
  if payloadLen < 126 then [] else if payloadLen ≤ 0xFFFF then toBe 2 payloadLen
  else toBe 8 payloadLen

variable (opcode : WsOpcode)

def finByte (fin : Bool) : UInt8 :=
  (if fin then 0x80 else 0) ||| (opcode.toByte &&& 0x0F)

def maskBit (useMask : Bool) : UInt8 := if useMask then 0x80 else 0

def maskField (useMask : Bool) (key : MaskingKey) : Bytes := if useMask then key.1 else []

theorem appendWsFrameHeader_eq (fin : Bool) (payloadLen : Nat) (useMask : Bool) (key : MaskingKey) :
    appendWsFrameHeader opcode fin false false false payloadLen useMask key =
      finByte opcode fin :: (maskBit useMask ||| lengthByte payloadLen) ::
        (lengthExtension payloadLen ++ maskField useMask key) := by
  unfold appendWsFrameHeader lengthByte lengthExtension finByte maskBit maskField
  by_cases hshort : payloadLen < 126
  · simp [hshort]
  by_cases hmiddle : payloadLen ≤ 0xFFFF
  · simp [hshort, hmiddle]
  simp [hshort, hmiddle]

theorem length_maskField (useMask : Bool) (key : MaskingKey) :
    (maskField useMask key).length = if useMask then 4 else 0 := by
  cases useMask with
  | true => exact key.2
  | false => rfl

theorem length_lengthExtension : (lengthExtension payloadLen).length =
    if payloadLen < 126 then 0 else if payloadLen ≤ 0xFFFF then 2 else 8 := by
  unfold lengthExtension
  split
  · rfl
  split
  · exact Lib.length_toBe 2 _
  exact Lib.length_toBe 8 _

theorem wsFrameHeaderLength_eq (useMask : Bool) (key : MaskingKey) :
    wsFrameHeaderLength payloadLen useMask =
      2 + (lengthExtension payloadLen).length + (maskField useMask key).length := by
  rw [length_maskField, length_lengthExtension]
  unfold wsFrameHeaderLength
  cases useMask <;> (simp only [if_true, Bool.false_eq_true, if_false]; split_ifs <;> omega)

/-- The first byte tells its flags and its opcode. -/
theorem finByte_spec (fin : Bool) :
    (finByte opcode fin &&& 0x80 != 0) = fin ∧
      (finByte opcode fin &&& 0x40 != 0) = false ∧
      (finByte opcode fin &&& 0x20 != 0) = false ∧
      (finByte opcode fin &&& 0x10 != 0) = false ∧
      finByte opcode fin &&& 0x0F = opcode.toByte := by
  cases opcode <;> cases fin <;> decide

theorem opcode_spec :
    ¬ (0x0A < opcode.toByte ∨ (0x02 < opcode.toByte ∧ opcode.toByte < 0x08)) ∧
      WsOpcode.ofByte opcode.toByte = opcode := by
  cases opcode <;> decide

variable {opcode}

private theorem length_bytes : ∀ (n : Fin 128) (useMask : Bool),
    ((maskBit useMask ||| UInt8.ofNat n) &&& 0x80 != 0) = useMask ∧
      ((maskBit useMask ||| UInt8.ofNat n) &&& 0x7F).toNat = n.val := by
  decide +kernel

theorem lengthByte_eq : ∃ n : Fin 128, lengthByte payloadLen = UInt8.ofNat n ∧
    n.val = if payloadLen < 126 then payloadLen else if payloadLen ≤ 0xFFFF then 126 else 127 := by
  unfold lengthByte
  by_cases hshort : payloadLen < 126
  · exact ⟨⟨payloadLen, by omega⟩, by simp [hshort]⟩
  by_cases hmiddle : payloadLen ≤ 0xFFFF
  · exact ⟨⟨126, by decide⟩, by simp [hshort, hmiddle]⟩
  exact ⟨⟨127, by decide⟩, by simp [hshort, hmiddle]⟩

theorem lengthByte_spec (useMask : Bool) :
    ((maskBit useMask ||| lengthByte payloadLen) &&& 0x80 != 0) = useMask ∧
      ((maskBit useMask ||| lengthByte payloadLen) &&& 0x7F).toNat =
        if payloadLen < 126 then payloadLen else if payloadLen ≤ 0xFFFF then 126 else 127 := by
  obtain ⟨n, hbyte, hn⟩ := lengthByte_eq payloadLen
  rw [hbyte, ← hn]
  exact length_bytes n useMask

variable {payloadLen}

/-! ## UTF-8 in blocks -/

namespace WsFrameParser

theorem le_7F_of_and_80 {byte : UInt8} (h : byte &&& 0x80 = 0) : byte ≤ 0x7F := by
  rw [UInt8.le_iff_toNat_le]
  exact Nat.le_of_lt_succ ((Lib.and_80_eq_zero byte).1 h)

theorem isValidUtf8Scalar_append (hascii : front.all fun byte => byte &&& 0x80 = 0)
    (rest : Bytes) : isValidUtf8Scalar (front ++ rest) = isValidUtf8Scalar rest := by
  induction front with
  | nil => rfl
  | cons byte front ih =>
  rw [all_cons, Bool.and_eq_true, decide_eq_true_eq] at hascii
  rw [cons_append, isValidUtf8Scalar.eq_def]
  simp only
  rw [if_pos (le_7F_of_and_80 hascii.1), ih hascii.2]

theorem isValidUtf8Scalar_skipAsciiBlocks (count : Nat) (data : Bytes) :
    isValidUtf8Scalar (skipAsciiBlocks count data) = isValidUtf8Scalar data := by
  induction count generalizing data with
  | zero => rfl
  | succ count ih =>
  rw [skipAsciiBlocks]
  split
  · next hascii =>
    rw [ih, ← isValidUtf8Scalar_append hascii, take_append_drop]
  rfl

/-- Every build accepts the same texts. -/
theorem isValidUtf8Bytes_eq (simd : Bool) (data : Bytes) :
    isValidUtf8Bytes simd data = isValidUtf8Scalar data := by
  unfold isValidUtf8Bytes
  split
  · exact isValidUtf8Scalar_skipAsciiBlocks _ data
  rfl

/-! ## Reading the header fields back -/

variable {cursor : IovecCursor} {n payloadLen : Nat} {bytes : Bytes} {byte2 : UInt8}

theorem headD_toBe_eight (hlen : len < 2 ^ 63) : (toBe 8 len).headD 0 &&& 0x80 = 0 := by
  have hshift : len >>> (8 * 7) < 128 := by
    rw [Nat.shiftRight_eq_div_pow]
    exact Nat.div_lt_of_lt_mul hlen
  rw [Lib.and_80_eq_zero, toBe, headD_cons, UInt8.toNat_ofNat',
    Nat.mod_eq_of_lt (Nat.lt_trans hshift (by decide))]
  exact hshift

theorem readPayloadLength_ok (H : cursor.Shows n (lengthExtension payloadLen ++ bytes))
    (hlen : payloadLen < 2 ^ 63)
    (hbyte : (byte2 &&& 0x7F).toNat =
      if payloadLen < 126 then payloadLen else if payloadLen ≤ 0xFFFF then 126 else 127) :
    ∃ cursor', readPayloadLength cursor byte2 = .ok (payloadLen, cursor') ∧
      cursor'.Shows (n + (lengthExtension payloadLen).length) bytes := by
  unfold readPayloadLength
  simp only [hbyte]
  unfold lengthExtension at H ⊢
  by_cases hshort : payloadLen < 126
  · simp only [if_pos hshort, nil_append] at H ⊢
    exact ⟨cursor, rfl, H⟩
  by_cases hmiddle : payloadLen ≤ 0xFFFF
  · simp only [if_neg hshort, if_pos hmiddle] at H ⊢
    obtain ⟨cursor', hread, hshows⟩ := H.readBytes (Lib.length_toBe 2 payloadLen)
    have hval : ofBe (toBe 2 payloadLen) = payloadLen := Lib.ofBe_toBe (by omega)
    refine ⟨cursor', ?_, by rw [Lib.length_toBe]; exact hshows⟩
    simp [hread, hval, hshort]
  simp only [if_neg hshort, if_neg hmiddle] at H ⊢
  obtain ⟨cursor', hread, hshows⟩ := H.readBytes (Lib.length_toBe 8 payloadLen)
  have hval : ofBe (toBe 8 payloadLen) = payloadLen := Lib.ofBe_toBe (by omega)
  refine ⟨cursor', ?_, by rw [Lib.length_toBe]; exact hshows⟩
  have htop : ¬ (toBe 8 payloadLen).headD 0 &&& 0x80 ≠ 0 := not_not.2 (headD_toBe_eight hlen)
  simp only [hread, hval, if_neg htop, if_neg hmiddle]
  rfl

theorem readPayloadLength_incomplete (H : cursor.Shows n bytes)
    (hmissing : bytes.length < (lengthExtension payloadLen).length)
    (hbyte : (byte2 &&& 0x7F).toNat =
      if payloadLen < 126 then payloadLen else if payloadLen ≤ 0xFFFF then 126 else 127) :
    readPayloadLength cursor byte2 = .error .Incomplete := by
  rw [length_lengthExtension] at hmissing
  unfold readPayloadLength
  simp only [hbyte]
  by_cases hshort : payloadLen < 126
  · rw [if_pos hshort] at hmissing
    omega
  by_cases hmiddle : payloadLen ≤ 0xFFFF
  · rw [if_neg hshort, if_pos hmiddle] at hmissing
    simp [hshort, hmiddle, H.readBytes_none hmissing]
  rw [if_neg hshort, if_neg hmiddle] at hmissing
  simp [hshort, hmiddle, H.readBytes_none hmissing]

theorem readMaskingKey_ok
    (H : cursor.Shows n (maskField mask key ++ bytes)) (previous : MaskingKey) :
    ∃ cursor', readMaskingKey cursor mask previous = .ok (if mask then key else previous, cursor') ∧
      cursor'.Shows (n + (maskField mask key).length) bytes := by
  unfold readMaskingKey
  cases mask with
  | true =>
    obtain ⟨cursor', hread, hshows⟩ := H.readBytes (length_maskField true key)
    refine ⟨cursor', ?_, by rw [length_maskField]; exact hshows⟩
    simp only [if_true] at hread ⊢
    rw [hread]
    exact dif_pos key.2
  | false => exact ⟨cursor, rfl, H⟩

theorem readMaskingKey_incomplete (H : cursor.Shows n bytes)
    (hmissing : bytes.length < (maskField mask key).length) (previous : MaskingKey) :
    readMaskingKey cursor mask previous = .error .Incomplete := by
  rw [length_maskField] at hmissing
  unfold readMaskingKey
  cases mask with
  | true =>
    rw [if_pos rfl] at hmissing
    simp only [if_true, H.readBytes_none hmissing]
  | false => simp at hmissing

theorem readPayload_eq {header : WsFrameHeader} {data : Bytes} (simd : Bool)
    (H : cursor.Shows n (data ++ bytes)) (hlen : data.length = header.payloadLength)
    (hfits : header.payloadLength < 2 ^ 63) :
    readPayload simd cursor header =
      let payload := if header.mask then applyMask simd header.maskingKey data else data
      match checkPayload simd header.opcode header.fin payload with
      | .error error => .error error
      | .ok () => .ok ({ header, payload }, n + data.length) := by
  have hrem : ¬ cursor.remaining < header.payloadLength := by
    rw [H.remaining, length_append]
    omega
  have hsize : ¬ 2 ^ 64 - 1 < header.payloadLength := by omega
  obtain ⟨cursor', hread, hshows⟩ := H.readBytes hlen
  have hcons : cursor'.consumed = n + data.length := by rw [hshows.consumed, hlen]
  rewrite [readPayload, if_neg hrem, if_neg hsize, hread, ← hcons]
  rfl

theorem readPayload_incomplete (simd : Bool) (H : cursor.Shows n bytes)
    (hmissing : bytes.length < header.payloadLength) :
    readPayload simd cursor header = .error .Incomplete := by
  rw [readPayload, if_pos (by rw [H.remaining]; exact hmissing)]

end WsFrameParser

/-! ## The frames that the parser accepts -/

/-- Reserved bits clear, control frames final and short, texts and close payloads well formed. -/
structure WsFrame.Acceptable (frame : WsFrame) : Prop where
  rsv1 : frame.header.rsv1 = false
  rsv2 : frame.header.rsv2 = false
  rsv3 : frame.header.rsv3 = false
  control : isControlFrame frame.header.opcode = true →
    frame.header.fin = true ∧ frame.payload.length ≤ 125
  length : frame.payload.length < 2 ^ 63
  text : frame.header.opcode = .Text → frame.header.fin = true →
    WsFrameParser.isValidUtf8Scalar frame.payload = true
  close : frame.header.opcode = .Close → frame.payload.length ≠ 1 ∧
    (2 ≤ frame.payload.length →
      WsFrameParser.isValidCloseCode (ofBe (frame.payload.take 2)) = true ∧
      WsFrameParser.isValidUtf8Scalar (frame.payload.drop 2) = true)

namespace WsFrameParser

variable {frame : WsFrame}

theorem checkPayload_ok (H : frame.Acceptable) (simd : Bool) :
    checkPayload simd frame.header.opcode frame.header.fin frame.payload = .ok () := by
  have htext : (if frame.header.opcode = .Text ∧ frame.header.fin = true then
      if !isValidUtf8Bytes simd frame.payload then
        (.error .InvalidUtf8 : Except WsErrorCode Unit) else .ok () else .ok ()) = .ok () := by
    split
    · next h => rw [isValidUtf8Bytes_eq, H.text h.1 h.2]; rfl
    rfl
  unfold checkPayload
  by_cases hclose : frame.header.opcode = .Close
  · obtain ⟨hone, htwo⟩ := H.close hclose
    rw [if_pos hclose, if_neg hone]
    by_cases hle : 2 ≤ frame.payload.length
    · obtain ⟨hcode, hreason⟩ := htwo hle
      have hutf8 : ¬ (2 < frame.payload.length ∧
          (!isValidUtf8Bytes simd (frame.payload.drop 2)) = true) := by
        rw [isValidUtf8Bytes_eq, hreason]
        rintro ⟨-, ⟨⟩⟩
      rw [if_pos hle, hcode, if_neg (by decide), if_neg hutf8]
      exact htext
    rw [if_neg hle]
    exact htext
  rw [if_neg hclose]
  exact htext

/-- The bytes of a frame on the wire. -/
def wireBytes (opcode : WsOpcode) (fin : Bool) (payload : Bytes) (useMask : Bool)
    (key : MaskingKey) : Bytes :=
  finByte opcode fin :: (maskBit useMask ||| lengthByte payload.length) ::
    (lengthExtension payload.length ++
      (maskField useMask key ++ if useMask then maskTail key 0 payload else payload))

theorem length_wirePayload (payload : Bytes) (useMask : Bool) (key : MaskingKey) :
    (if useMask then maskTail key 0 payload else payload).length = payload.length := by
  split
  · exact length_maskTail key 0 payload
  rfl

/-- Two splits of one list, the first one later. -/
theorem exists_append_of_le {got missing front back : Bytes} (h : got ++ missing = front ++ back)
    (hle : front.length ≤ got.length) : ∃ rest, got = front ++ rest ∧ rest ++ missing = back := by
  rcases List.append_eq_append_iff.1 h with ⟨rest, hfront, hmissing⟩ | ⟨rest, hgot, hback⟩
  · have hnil : rest = [] := by
      rw [hfront, length_append] at hle
      exact List.length_eq_zero_iff.1 (by omega)
    rw [hnil, append_nil] at hfront
    rw [hnil, nil_append] at hmissing
    exact ⟨[], by rw [hfront, append_nil], by rw [hmissing, nil_append]⟩
  exact ⟨rest, hgot, hback.symm⟩

theorem length_wireBytes (opcode : WsOpcode) (fin : Bool) (payload : Bytes) (useMask : Bool)
    (key : MaskingKey) : (wireBytes opcode fin payload useMask key).length =
      wsFrameHeaderLength payload.length useMask + payload.length := by
  rw [wireBytes, wsFrameHeaderLength_eq payload.length useMask key]
  simp only [length_cons, length_append, length_wirePayload]
  omega

variable {iovecs : IoVecs}

theorem fromIOVec_cons_cons {byte1 byte2 : UInt8} {rest : Bytes}
    (hbytes : iovecs.flatten = byte1 :: byte2 :: rest) (simd : Bool) (previous : WsFrame)
    (isServer : Bool) :
    ∃ cursor : IovecCursor, cursor.Shows 2 rest ∧
      fromIOVec simd iovecs previous isServer =
        if byte1 &&& 0x40 != 0 || byte1 &&& 0x20 != 0 || byte1 &&& 0x10 != 0 then
          .error .ReservedBitsSet
        else if 0x0A < byte1 &&& 0x0F ∨ (0x02 < byte1 &&& 0x0F ∧ byte1 &&& 0x0F < 0x08) then
          .error .InvalidOpcode
        else if isControlFrame (.ofByte (byte1 &&& 0x0F)) && !(byte1 &&& 0x80 != 0) then
          .error .ControlFrameFragmented
        else if isServer && !(byte2 &&& 0x80 != 0) then .error .MaskRequired
        else if !isServer && byte2 &&& 0x80 != 0 then .error .MaskNotAllowed
        else
          readLengthAndPayload simd cursor byte2
            { previous.header with
              opcode := .ofByte (byte1 &&& 0x0F)
              fin := byte1 &&& 0x80 != 0
              rsv1 := byte1 &&& 0x40 != 0
              rsv2 := byte1 &&& 0x20 != 0
              rsv3 := byte1 &&& 0x10 != 0
              mask := byte2 &&& 0x80 != 0 } := by
  have hstart := IovecCursor.shows_start iovecs
  rw [hbytes] at hstart
  obtain ⟨cursor₁, hread₁, hshows₁⟩ := hstart.readByte
  obtain ⟨cursor₂, hread₂, hshows₂⟩ := hshows₁.readByte
  have htotal : ¬ getTotalLength iovecs < 2 := by
    rw [getTotalLength, ← length_flatten, hbytes, length_cons, length_cons]
    omega
  refine ⟨cursor₂, hshows₂, ?_⟩
  unfold fromIOVec
  simp only [if_neg htotal, hread₁, hread₂]

variable {useMask : Bool}

/-- The first two bytes are read and pass all checks. -/
theorem fromIOVec_start {rest : Bytes} (hctrl : isControlFrame opcode = true → fin = true)
    (hbytes : iovecs.flatten = finByte opcode fin :: (maskBit useMask ||| lengthByte payloadLen) :: rest)
    (simd : Bool) (previous : WsFrame) : ∃ cursor : IovecCursor, cursor.Shows 2 rest ∧
      fromIOVec simd iovecs previous useMask =
        readLengthAndPayload simd cursor (maskBit useMask ||| lengthByte payloadLen)
          { previous.header with
            opcode, fin, rsv1 := false, rsv2 := false, rsv3 := false, mask := useMask } := by
  obtain ⟨hfin, hrsv1, hrsv2, hrsv3, hval⟩ := finByte_spec opcode fin
  obtain ⟨hknown, hopcode⟩ := opcode_spec opcode
  obtain ⟨hmask, -⟩ := lengthByte_spec payloadLen useMask
  obtain ⟨cursor, hshows, hparse⟩ := fromIOVec_cons_cons hbytes simd previous useMask
  have hfragment : (isControlFrame opcode && !fin) = false := by
    cases hc : isControlFrame opcode with
    | true => rw [hctrl hc]; rfl
    | false => rfl
  refine ⟨cursor, hshows, ?_⟩
  rw [hparse]
  simp only [hfin, hrsv1, hrsv2, hrsv3, hval, hopcode, if_neg hknown, hfragment, hmask]
  cases useMask <;> rfl

/-- The header with the fields that the parser sets. -/
def parsedHeader (opcode : WsOpcode) (fin : Bool) (payloadLength : Nat) (useMask : Bool)
    (key previous : MaskingKey) : WsFrameHeader :=
  { payloadLength, opcode, maskingKey := if useMask then key else previous, fin, mask := useMask }

theorem fromIOVec_wireBytes (H : frame.Acceptable) {trailing : Bytes} {key : MaskingKey}
    (hbytes : iovecs.flatten = wireBytes frame.header.opcode frame.header.fin frame.payload useMask key ++ trailing)
    (simd : Bool) (previous : WsFrame) :
    fromIOVec simd iovecs previous useMask =
      .ok (⟨parsedHeader frame.header.opcode frame.header.fin frame.payload.length useMask key
        previous.header.maskingKey, frame.payload⟩,
        wsFrameHeaderLength frame.payload.length useMask + frame.payload.length) := by
  rw [wireBytes, cons_append, cons_append, append_assoc, append_assoc] at hbytes
  obtain ⟨cursor, hshows, hstart⟩ :=
    fromIOVec_start (fun hc => (H.control hc).1) hbytes simd previous
  obtain ⟨cursor₁, hlen, hshows₁⟩ :=
    readPayloadLength_ok hshows H.length (lengthByte_spec frame.payload.length useMask).2
  obtain ⟨cursor₂, hkey, hshows₂⟩ := readMaskingKey_ok hshows₁ previous.header.maskingKey
  have hctrl : ¬ (isControlFrame frame.header.opcode = true ∧ 125 < frame.payload.length) := by
    rintro ⟨hc, hlong⟩
    exact Nat.not_lt.2 (H.control hc).2 hlong
  have hwire := length_wirePayload frame.payload useMask key
  rw [hstart, readLengthAndPayload, hlen]
  simp only [if_neg hctrl, hkey]
  rw [readPayload_eq simd hshows₂ (by rw [hwire]) H.length]
  have hpay : (if useMask = true then applyMask simd (if useMask = true then key
      else previous.header.maskingKey) (if useMask = true then maskTail key 0 frame.payload
      else frame.payload) else if useMask = true then maskTail key 0 frame.payload
      else frame.payload) = frame.payload := by
    cases useMask with
    | true =>
      simp only [if_true]
      rw [applyMask, applyMaskBytesImpl_eq, maskTail_maskTail]
    | false => rfl
  simp only [hpay, checkPayload_ok H simd, hwire,
    wsFrameHeaderLength_eq frame.payload.length useMask key]
  rfl

theorem fromIOVec_incomplete (H : frame.Acceptable) {missing : Bytes} (hmissing : missing ≠ [])
    (hbytes : iovecs.flatten ++ missing = wireBytes frame.header.opcode frame.header.fin frame.payload useMask key)
    (simd : Bool) (previous : WsFrame) :
    fromIOVec simd iovecs previous useMask = .error .Incomplete := by
  rw [wireBytes] at hbytes
  by_cases htwo : iovecs.flatten.length < 2
  · unfold fromIOVec
    simp only [getTotalLength, ← length_flatten, if_pos htwo]
  obtain ⟨rest, hhead, hrest⟩ := @exists_append_of_le _ _ [_, _] _ hbytes (by
    rw [length_cons, length_singleton]
    omega)
  obtain ⟨cursor, hshows, hstart⟩ :=
    fromIOVec_start (fun hc => (H.control hc).1) hhead simd previous
  have hbyte := (lengthByte_spec frame.payload.length useMask).2
  rw [hstart, readLengthAndPayload]
  -- The cut lies in the length, in the masking key or in the payload.
  by_cases hext : rest.length < (lengthExtension frame.payload.length).length
  · rw [readPayloadLength_incomplete hshows hext hbyte]
  obtain ⟨rest₁, rfl, hrest₁⟩ := exists_append_of_le hrest (Nat.le_of_not_lt hext)
  obtain ⟨cursor₁, hlength, hshows₁⟩ := readPayloadLength_ok hshows H.length hbyte
  have hctrl :
      ¬ (isControlFrame frame.header.opcode = true ∧ 125 < frame.payload.length) := by
    rintro ⟨hc, hlong⟩
    exact Nat.not_lt.2 (H.control hc).2 hlong
  rw [hlength]
  simp only [if_neg hctrl]
  by_cases hfield : rest₁.length < (maskField useMask key).length
  · rw [readMaskingKey_incomplete hshows₁ hfield]
  obtain ⟨rest₂, rfl, hrest₂⟩ := exists_append_of_le hrest₁ (Nat.le_of_not_lt hfield)
  obtain ⟨cursor₂, hkey, hshows₂⟩ := readMaskingKey_ok hshows₁ previous.header.maskingKey
  have hshort : rest₂.length < frame.payload.length := by
    have hlen := congrArg List.length hrest₂
    rw [length_append, length_wirePayload] at hlen
    have := List.length_pos_iff.2 hmissing
    omega
  rw [hkey]
  exact readPayload_incomplete simd hshows₂ hshort

/-! ## The encoders write the bytes of the frame -/

theorem encodeMessageInto_eq (simd : Bool) (opcode : WsOpcode) (payload : Bytes)
    (fin useMask : Bool) (key : MaskingKey) :
    encodeMessageInto simd opcode payload fin useMask key =
      wireBytes opcode fin payload useMask key := by
  rw [encodeMessageInto, wireBytes, appendWsFrameHeader_eq]
  cases payload with
  | nil => cases useMask <;> simp [maskTail]
  | cons b payload => cases useMask <;> simp [applyMaskBytesImpl_eq]

theorem encodeMessageIntoMove_eq (simd : Bool) (opcode : WsOpcode) (payload : Bytes)
    (fin useMask : Bool) (key : MaskingKey) :
    encodeMessageIntoMove simd opcode payload fin useMask key =
      wireBytes opcode fin payload useMask key := by
  rw [← encodeMessageInto_eq simd, encodeMessageIntoMove, encodeMessageInto]
  cases payload with
  | nil => rfl
  | cons b payload =>
  have hne : ¬ (b :: payload).length = 0 := by simp
  simp only [if_neg hne, take_left, drop_left]
  rfl

theorem encodeInto_eq (H : frame.Acceptable) (simd useMask : Bool) (key : MaskingKey) :
    encodeInto simd frame useMask key =
      wireBytes frame.header.opcode frame.header.fin frame.payload useMask key := by
  rw [← encodeMessageInto_eq simd, encodeInto, H.rsv1, H.rsv2, H.rsv3]
  rfl

/-- What the three encoders write for a frame: the frame as it is, or its opcode, its payload and
its `fin` as the arguments of a message. -/
inductive Encodes (frame : WsFrame) (useMask : Bool) (key : MaskingKey) : Bytes → Prop
  | encodeInto (simd : Bool) :
    Encodes frame useMask key (encodeInto simd frame useMask key)
  | encodeMessageInto (simd : Bool) : Encodes frame useMask key
    (encodeMessageInto simd frame.header.opcode frame.payload frame.header.fin useMask key)
  | encodeMessageIntoMove (simd : Bool) : Encodes frame useMask key
    (encodeMessageIntoMove simd frame.header.opcode frame.payload frame.header.fin useMask key)

theorem Encodes.eq_wireBytes (h : Encodes frame useMask key encoded) (H : frame.Acceptable) :
    encoded = wireBytes frame.header.opcode frame.header.fin frame.payload useMask key := by
  cases h with
  | encodeInto simd => exact encodeInto_eq H simd useMask key
  | encodeMessageInto simd => exact encodeMessageInto_eq simd _ _ _ _ _
  | encodeMessageIntoMove simd => exact encodeMessageIntoMove_eq simd _ _ _ _ _

/-- Parsing what an encoder has written, in any segments and with anything behind it, gives the
frame back; every strict initial part of it is incomplete. -/
theorem fromIOVec_encoded {frame : WsFrame} (H : frame.Acceptable) {useMask : Bool}
    {key : MaskingKey} {encoded : Bytes} (hencoded : Encodes frame useMask key encoded)
    (simd : Bool) (previous : WsFrame) :
    (∀ (iovecs : IoVecs) (trailing : Bytes), iovecs.flatten = encoded ++ trailing →
      ∃ parsed, fromIOVec simd iovecs previous useMask =
          .ok (parsed, wsFrameHeaderLength frame.payload.length useMask + frame.payload.length) ∧
        parsed.header.fin = frame.header.fin ∧ parsed.header.opcode = frame.header.opcode ∧
        parsed.payload = frame.payload) ∧
    ∀ (iovecs : IoVecs) (missing : Bytes), missing ≠ [] → iovecs.flatten ++ missing = encoded →
      fromIOVec simd iovecs previous useMask = .error .Incomplete := by
  have hwire := hencoded.eq_wireBytes H
  refine ⟨fun iovecs trailing hbytes => ?_, fun iovecs missing hmissing hbytes => ?_⟩
  · rw [hwire] at hbytes
    exact ⟨_, fromIOVec_wireBytes H hbytes simd previous, rfl, rfl, rfl⟩
  rw [hwire] at hbytes
  exact fromIOVec_incomplete H hmissing hbytes simd previous

/-- A final text frame of one byte. -/
def helloFrame : WsFrame := { header := { opcode := .Text, fin := true }, payload := [0x68] }

theorem fromIOVec_encoded_hello :
    helloFrame.Acceptable ∧
      (∀ (iovecs : IoVecs) (trailing : Bytes),
        iovecs.flatten = encodeInto true helloFrame true ⟨[1, 2, 3, 4], rfl⟩ ++ trailing →
        ∃ parsed, fromIOVec true iovecs {} true = .ok (parsed, wsFrameHeaderLength 1 true + 1) ∧
          parsed.header.fin = true ∧ parsed.header.opcode = .Text ∧ parsed.payload = [0x68]) ∧
      ∀ (iovecs : IoVecs) (missing : Bytes), missing ≠ [] →
        iovecs.flatten ++ missing = encodeInto true helloFrame true ⟨[1, 2, 3, 4], rfl⟩ →
        fromIOVec true iovecs {} true = .error .Incomplete := by
  have hhello : helloFrame.Acceptable :=
    ⟨rfl, rfl, rfl, by decide, by decide, fun _ _ => by decide, by decide⟩
  exact ⟨hhello, fromIOVec_encoded hhello (.encodeInto true) true {}⟩

/-! ## The parser accepts no other frames -/

theorem length_of_readBytes {cursor : IovecCursor}
    (h : cursor.readBytes len = some (out, cursor')) : out.length = len := by
  have hle : len ≤ (IovecCursor.unread cursor.iovecs cursor.offset).length := by
    by_contra hlt
    rw [IovecCursor.readBytes, IovecCursor.readLoop_none (Nat.lt_of_not_le hlt)] at h
    cases h
  obtain ⟨iovecs, offset, hread, -⟩ := IovecCursor.readLoop_some hle
  rw [IovecCursor.readBytes, hread] at h
  cases h
  exact length_take_of_le hle

theorem lt_of_readPayloadLength
    (h : readPayloadLength cursor byte2 = .ok (len, cursor')) : len < 2 ^ 63 := by
  unfold readPayloadLength at h
  simp only at h
  split at h
  · cases h
    omega
  split at h
  · split at h
    · cases h
    next lenBuf _ hread =>
    split at h
    · cases h
    cases h
    have hlt := Lib.ofBe_lt lenBuf
    rw [length_of_readBytes hread] at hlt
    omega
  split at h
  · cases h
  next lenBuf _ hread =>
  split at h
  · cases h
  next htop =>
  split at h
  · cases h
  cases h
  have hlen := length_of_readBytes hread
  cases lenBuf with
  | nil => cases hlen
  | cons b lenBuf =>
  have hb := (Lib.and_80_eq_zero b).1 (not_not.1 htop)
  have hlt := Lib.ofBe_lt lenBuf
  rw [Nat.succ.inj hlen] at hlt
  rw [Lib.ofBe_cons, Nat.succ.inj hlen]
  omega

theorem consumed_of_readBytes {cursor : IovecCursor}
    (h : cursor.readBytes len = some (out, cursor')) :
    cursor'.consumed = cursor.consumed + len := by
  unfold IovecCursor.readBytes at h
  split at h
  · cases h
    rfl
  cases h

theorem consumed_of_readByte {cursor : IovecCursor}
    (h : cursor.readByte = some (b, cursor')) : cursor'.consumed = cursor.consumed + 1 := by
  unfold IovecCursor.readByte at h
  split at h
  · next hread =>
    cases h
    exact consumed_of_readBytes hread
  cases h

variable {simd isServer : Bool}

/-- What the first two bytes of a frame that is accepted have passed. -/
theorem fromIOVec_ok (h : fromIOVec simd iovecs previous isServer = .ok (frame, n)) :
    ∃ (cursor : IovecCursor) (byte2 : UInt8) (header : WsFrameHeader), cursor.consumed = 2 ∧
      header.rsv1 = false ∧ header.rsv2 = false ∧ header.rsv3 = false ∧
      (isControlFrame header.opcode = true → header.fin = true) ∧
      readLengthAndPayload simd cursor byte2 header = .ok (frame, n) := by
  unfold fromIOVec at h
  simp only at h
  split at h
  · cases h
  split at h
  · cases h
  next hread₁ =>
  split at h
  · cases h
  next hrsv =>
  split at h
  · cases h
  split at h
  · cases h
  next hfragment =>
  split at h
  · cases h
  next cursor hread₂ =>
  split at h
  · cases h
  split at h
  · cases h
  simp only [Bool.or_eq_true, not_or, Bool.not_eq_true] at hrsv
  refine ⟨cursor, _, _, ?_, hrsv.1.1, hrsv.1.2, hrsv.2, fun hc => ?_, h⟩
  · rw [consumed_of_readByte hread₂, consumed_of_readByte hread₁]
  simpa [hc] using hfragment

/-- The rest of an accepted frame. -/
theorem readLengthAndPayload_ok
    (h : readLengthAndPayload simd cursor byte2 header = .ok (frame, n)) :
    cursor.consumed ≤ n ∧ frame.payload.length < 2 ^ 63 ∧
      frame.header.payloadLength = frame.payload.length ∧
      (isControlFrame header.opcode = true → frame.payload.length ≤ 125) ∧
      checkPayload simd header.opcode header.fin frame.payload = .ok () ∧
      ∃ payloadLength maskingKey, frame.header = { header with payloadLength, maskingKey } := by
  unfold readLengthAndPayload at h
  split at h
  · cases h
  next payloadLength cursor₁ hlen =>
  split at h
  · cases h
  next hctrl =>
  split at h
  · cases h
  next maskingKey cursor₂ hkey =>
  unfold readPayload at h
  split at h
  · cases h
  split at h
  · cases h
  split at h
  · cases h
  next data cursor₃ hread =>
  simp only at h
  split at h
  · cases h
  next hcheck =>
  cases h
  have hdata := length_of_readBytes hread
  have hpay : (if header.mask = true then applyMask simd maskingKey data else data).length =
      payloadLength := by
    split
    · rw [applyMask, applyMaskBytesImpl_eq, length_maskTail, hdata]
    exact hdata
  have hconsumed₁ : cursor.consumed ≤ cursor₁.consumed := by
    unfold readPayloadLength at hlen
    grind [consumed_of_readBytes]
  have hconsumed₂ : cursor₁.consumed ≤ cursor₂.consumed := by
    unfold readMaskingKey at hkey
    grind [consumed_of_readBytes]
  refine ⟨?_, ?_, hpay.symm, fun hc => ?_, hcheck, payloadLength, maskingKey, rfl⟩
  · rw [consumed_of_readBytes hread]
    omega
  · rw [hpay]
    exact lt_of_readPayloadLength hlen
  rw [hpay]
  exact Nat.le_of_not_lt fun hlong => hctrl ⟨hc, hlong⟩

theorem two_le_of_fromIOVec
    (h : fromIOVec simd iovecs previous isServer = .ok (frame, n)) : 2 ≤ n := by
  obtain ⟨cursor, byte2, header, hcons, -, -, -, -, hrest⟩ := fromIOVec_ok h
  rw [← hcons]
  exact (readLengthAndPayload_ok hrest).1

/-! ## The parser does not know the size limits of the readers -/

theorem fromIOVec_ne_messageTooLarge (h : fromIOVec simd iovecs previous isServer = .error error) :
    error ≠ .MessageTooLarge := by
  have hlen : ∀ {cursor byte2}, readPayloadLength cursor byte2 = .error error →
      error ≠ .MessageTooLarge := by
    intro cursor byte2 h
    unfold readPayloadLength at h
    grind
  have hkey : ∀ {cursor mask previous}, readMaskingKey cursor mask previous = .error error →
      error ≠ .MessageTooLarge := by
    intro cursor mask previous h
    unfold readMaskingKey at h
    grind
  have hcheck : ∀ {opcode fin payload}, checkPayload simd opcode fin payload = .error error →
      error ≠ .MessageTooLarge := by
    intro opcode fin payload h
    unfold checkPayload at h
    grind
  have hpay : ∀ {cursor header}, readPayload simd cursor header = .error error →
      error ≠ .MessageTooLarge := by
    intro cursor header h
    unfold readPayload at h
    grind
  have hrest : ∀ {cursor byte2 header}, readLengthAndPayload simd cursor byte2 header =
      .error error → error ≠ .MessageTooLarge := by
    intro cursor byte2 header h
    unfold readLengthAndPayload at h
    grind
  unfold fromIOVec at h
  grind

end WsFrameParser

end Galay.Ws
