import Galay.Ws.FrameCodec

/-!
# Scanning a frame header ahead of the parser (`galay-ws/kernel/ws_reader.h`)

`scanWsMessageFastPathPrefix` reads the header of a data frame without moving any cursor. It is
compared with `WsFrameParser::fromIOVec` on the same segments: where it asks for more bytes the
parser does too, and where it finds a complete frame the parser's answer depends on the payload
alone.
-/

namespace Galay.Ws

open List
open Lib (ofBe)

inductive WsMessageFastPathStatus
  | Fallback
  | NeedMore
  | Continue
  | Return
  deriving DecidableEq, Repr

structure WsFastPathFramePrefix where
  fin : Bool
  opcode : WsOpcode
  mask : Bool
  payloadLength : Nat
  maskingKey : MaskingKey
  payloadOffset : Nat
  frameLength : Nat
  deriving DecidableEq, Repr

/-! ## Scanning the frame header -/

def wsIovecTotalLength (iovecs : IoVecs) : Nat := (iovecs.map List.length).sum

/-- `remaining` bytes from position `cursor` on, if they are all there. -/
def wsReadIovecBytesLoop : (iovecs : IoVecs) → (cursor remaining : Nat) → Option Bytes
  | [], _, _ => none
  | iov :: iovecs, cursor, remaining =>
    if iov.length ≤ cursor then wsReadIovecBytesLoop iovecs (cursor - iov.length) remaining
    else
      let taken := min (iov.length - cursor) remaining
      let out := (iov.drop cursor).take taken
      if remaining - taken = 0 then some out
      else (wsReadIovecBytesLoop iovecs 0 (remaining - taken)).map (out ++ ·)

variable (iovecs : IoVecs)

def wsReadIovecBytes (offset len : Nat) : Option Bytes :=
  if len = 0 then some [] else wsReadIovecBytesLoop iovecs offset len

/-- One byte at a fixed position. -/
def wsReadIovecByte (offset : Nat) : Option UInt8 :=
  match wsReadIovecBytes iovecs offset 1 with
  | some [byte] => some byte
  | _ => none

/-- The payload length and the length of the header so far; otherwise the status to return. -/
def scanPayloadLength (totalLength : Nat) (byte2 : UInt8) :
    Except WsMessageFastPathStatus (Nat × Nat) :=
  let payloadLength := (byte2 &&& 0x7F).toNat
  if payloadLength = 126 then
    if totalLength < 2 + 2 then .error .NeedMore
    else
      match wsReadIovecBytes iovecs 2 2 with
      | none => .error .NeedMore
      | some lenBuf =>
        let payloadLength := ofBe lenBuf
        if payloadLength < 126 then .error .Fallback else .ok (payloadLength, 2 + 2)
  else if payloadLength = 127 then
    if totalLength < 2 + 8 then .error .NeedMore
    else
      match wsReadIovecBytes iovecs 2 8 with
      | none => .error .NeedMore
      | some lenBuf =>
        if lenBuf.headD 0 &&& 0x80 ≠ 0 then .error .Fallback
        else
          let payloadLength := ofBe lenBuf
          if payloadLength ≤ 0xFFFF then .error .Fallback else .ok (payloadLength, 2 + 8)
  else .ok (payloadLength, 2)

/-- The masking key of a masked frame and the length of the whole header. -/
def scanMaskingKey (totalLength headerLength : Nat) (mask : Bool) :
    Except WsMessageFastPathStatus (MaskingKey × Nat) :=
  if mask then
    if totalLength < headerLength + 4 then .error .NeedMore
    else
      match wsReadIovecBytes iovecs headerLength 4 with
      | none => .error .NeedMore
      | some key =>
        if h : key.length = 4 then .ok (⟨key, h⟩, headerLength + 4) else .error .NeedMore
  else .ok (zeroKey, headerLength)

/-- The header of a complete data frame (status `kContinue`), or another status. -/
def scanWsMessageFastPathPrefix (isServer : Bool) :
    Except WsMessageFastPathStatus WsFastPathFramePrefix :=
  let totalLength := wsIovecTotalLength iovecs
  if totalLength < 2 then .error .NeedMore
  else
    match wsReadIovecByte iovecs 0, wsReadIovecByte iovecs 1 with
    | some byte1, some byte2 =>
      let opcodeValue := byte1 &&& 0x0F
      let fin := byte1 &&& 0x80 != 0
      let opcode := WsOpcode.ofByte opcodeValue
      let mask := byte2 &&& 0x80 != 0
      if byte1 &&& 0x70 ≠ 0 then .error .Fallback
      else if 0x0A < opcodeValue ∨ (0x02 < opcodeValue ∧ opcodeValue < 0x08) then .error .Fallback
      else if isControlFrame opcode then .error .Fallback
      else if (isServer && !mask) || (!isServer && mask) then .error .Fallback
      else
        match scanPayloadLength iovecs totalLength byte2 with
        | .error status => .error status
        | .ok (payloadLength, headerLength) =>
          if 2 ^ 64 - 1 < payloadLength then .error .Fallback
          else
            match scanMaskingKey iovecs totalLength headerLength mask with
            | .error status => .error status
            | .ok (maskingKey, headerLength) =>
              let frameLength := headerLength + payloadLength
              if totalLength < frameLength then .error .NeedMore
              else
                .ok { fin, opcode, mask, payloadLength, maskingKey, payloadOffset := headerLength,
                      frameLength }
    | _, _ => .error .NeedMore

variable {iovecs}

/-! ## The scanner reads the bytes of the segments -/

theorem wsReadIovecBytesLoop_eq (hpos : 0 < remaining)
    (hle : cursor + remaining ≤ iovecs.flatten.length) :
    wsReadIovecBytesLoop iovecs cursor remaining =
      some ((iovecs.flatten.drop cursor).take remaining) := by
  induction iovecs generalizing cursor remaining with
  | nil =>
    rw [flatten_nil, length_nil] at hle
    omega
  | cons iov iovecs ih =>
  rw [flatten_cons, length_append] at hle
  rw [wsReadIovecBytesLoop, flatten_cons]
  by_cases hpast : iov.length ≤ cursor
  · rw [if_pos hpast, ih hpos (by omega), drop_append, drop_eq_nil_of_le hpast, nil_append]
  have hdrop : (iov ++ iovecs.flatten).drop cursor = iov.drop cursor ++ iovecs.flatten :=
    drop_append_of_le_length (by omega)
  rw [if_neg hpast, hdrop]
  by_cases hfits : remaining ≤ iov.length - cursor
  · have htaken : min (iov.length - cursor) remaining = remaining := by omega
    simp only [htaken, Nat.sub_self, if_true]
    rw [take_append_of_le_length (by rw [length_drop]; exact hfits)]
  have htaken : min (iov.length - cursor) remaining = iov.length - cursor := by omega
  have hwhole : (iov.drop cursor).take (iov.length - cursor) = iov.drop cursor :=
    take_of_length_le (by rw [length_drop])
  have hpart : (iov.drop cursor).take remaining = iov.drop cursor :=
    take_of_length_le (by rw [length_drop]; omega)
  simp only [htaken, hwhole]
  rw [if_neg (by omega), ih (by omega) (by omega), drop_zero, take_append, hpart, length_drop]
  rfl

theorem wsReadIovecBytes_eq (hle : offset + len ≤ iovecs.flatten.length) :
    wsReadIovecBytes iovecs offset len = some ((iovecs.flatten.drop offset).take len) := by
  unfold wsReadIovecBytes
  split
  · next hzero => rw [hzero, take_zero]
  next hne => exact wsReadIovecBytesLoop_eq (Nat.pos_of_ne_zero hne) hle

theorem wsReadIovecByte_eq {iovecs : IoVecs} {front rest : Bytes}
    (h : iovecs.flatten = front ++ b :: rest) : wsReadIovecByte iovecs front.length = some b := by
  have hle : front.length + 1 ≤ iovecs.flatten.length := by
    rw [h, length_append, length_cons]
    omega
  rw [wsReadIovecByte, wsReadIovecBytes_eq hle, h, drop_left]
  rfl

/-! ## The scanner against the parser -/

open WsFrameParser

variable {iovecs : IoVecs} {cursor : IovecCursor} {bytes : Bytes} {n : Nat}

/-- `cursor` stands behind the first `n` bytes of the segments. -/
def At (iovecs : IoVecs) (cursor : IovecCursor) (n : Nat) : Prop :=
  n ≤ iovecs.flatten.length ∧ cursor.Shows n (iovecs.flatten.drop n)

theorem At.readBytes (H : At iovecs cursor n) (hle : n + len ≤ iovecs.flatten.length) :
    ∃ cursor', cursor.readBytes len = some ((iovecs.flatten.drop n).take len, cursor') ∧
      At iovecs cursor' (n + len) := by
  obtain ⟨-, hshows⟩ := H
  rw [← take_append_drop len (iovecs.flatten.drop n)] at hshows
  obtain ⟨cursor', hread, hshows'⟩ := hshows.readBytes (length_take_of_le (by
    rw [length_drop]
    omega))
  rw [drop_drop] at hshows'
  exact ⟨cursor', hread, hle, hshows'⟩

theorem At.readBytes_none (H : At iovecs cursor n)
    (hlt : iovecs.flatten.length < n + len) : cursor.readBytes len = none := by
  refine H.2.readBytes_none ?_
  have := H.1
  rw [length_drop]
  omega

/-- What the parser reads where the scanner has read a length. -/
inductive LengthScanned (iovecs : IoVecs) (cursor : IovecCursor) (byte2 : UInt8) :
    Except WsMessageFastPathStatus (Nat × Nat) → Prop
  | needMore : readPayloadLength cursor byte2 = .error .Incomplete →
    LengthScanned iovecs cursor byte2 (.error .NeedMore)
  | fallback : readPayloadLength cursor byte2 = .error .InvalidPayloadLength →
    LengthScanned iovecs cursor byte2 (.error .Fallback)
  | ok {payloadLength headerLength : Nat} {cursor' : IovecCursor} :
    readPayloadLength cursor byte2 = .ok (payloadLength, cursor') →
    At iovecs cursor' headerLength → 2 ≤ headerLength →
    LengthScanned iovecs cursor byte2 (.ok (payloadLength, headerLength))

theorem lengthScanned (H : At iovecs cursor 2) (byte2 : UInt8) :
    LengthScanned iovecs cursor byte2
      (scanPayloadLength iovecs iovecs.flatten.length byte2) := by
  have hbound : (byte2 &&& 0x7F).toNat < 128 := by
    rw [Lib.toNat_and_7F]
    omega
  unfold scanPayloadLength
  simp only
  split
  · next h126 =>
    split
    · next hshort =>
      refine .needMore ?_
      simp [readPayloadLength, h126, H.readBytes_none hshort]
    next hlong =>
    obtain ⟨cursor', hread, hat⟩ := H.readBytes (Nat.le_of_not_lt hlong)
    rw [wsReadIovecBytes_eq (Nat.le_of_not_lt hlong)]
    simp only
    split
    · next hmin =>
      refine .fallback ?_
      simp only [readPayloadLength, h126, hread, if_pos hmin]
      rfl
    next hmin =>
    refine .ok ?_ hat (by omega)
    simp only [readPayloadLength, h126, hread, if_neg hmin]
    rfl
  next h126 =>
  split
  · next h127 =>
    split
    · next hshort =>
      refine .needMore ?_
      simp [readPayloadLength, h127, H.readBytes_none hshort]
    next hlong =>
    obtain ⟨cursor', hread, hat⟩ := H.readBytes (Nat.le_of_not_lt hlong)
    rw [wsReadIovecBytes_eq (Nat.le_of_not_lt hlong)]
    simp only
    split
    · next htop =>
      refine .fallback ?_
      simp only [readPayloadLength, h127, hread, if_pos htop]
      rfl
    next htop =>
    split
    · next hmin =>
      refine .fallback ?_
      simp only [readPayloadLength, h127, hread, if_neg htop, if_pos hmin]
      rfl
    next hmin =>
    refine .ok ?_ hat (by omega)
    simp only [readPayloadLength, h127, hread, if_neg htop, if_neg hmin]
    rfl
  next h127 =>
  refine .ok ?_ H (Nat.le_refl 2)
  unfold readPayloadLength
  simp only
  rw [if_pos (by omega)]

/-- What the parser reads where the scanner has read a masking key. -/
inductive KeyScanned (iovecs : IoVecs) (cursor : IovecCursor) (headerLength : Nat) (mask : Bool) :
    Except WsMessageFastPathStatus (MaskingKey × Nat) → Prop
  | needMore : readMaskingKey cursor mask zeroKey = .error .Incomplete →
    KeyScanned iovecs cursor headerLength mask (.error .NeedMore)
  | ok {key : MaskingKey} {headerLength' : Nat} {cursor' : IovecCursor} :
    readMaskingKey cursor mask zeroKey = .ok (key, cursor') →
    At iovecs cursor' headerLength' → headerLength ≤ headerLength' →
    KeyScanned iovecs cursor headerLength mask (.ok (key, headerLength'))

theorem keyScanned (H : At iovecs cursor n) (mask : Bool) :
    KeyScanned iovecs cursor n mask (scanMaskingKey iovecs iovecs.flatten.length n mask) := by
  unfold scanMaskingKey
  cases mask with
  | false => exact .ok rfl H (Nat.le_refl n)
  | true =>
  simp only [if_true]
  split
  · next hshort =>
    refine .needMore ?_
    simp only [readMaskingKey, if_true, H.readBytes_none hshort]
  next hlong =>
  have hle := Nat.le_of_not_lt hlong
  obtain ⟨cursor', hread, hat⟩ := H.readBytes hle
  have hlen : ((iovecs.flatten.drop n).take 4).length = 4 :=
    length_take_of_le (by rw [length_drop]; omega)
  rw [wsReadIovecBytes_eq hle]
  simp only [dif_pos hlen]
  refine .ok ?_ hat (Nat.le_add_right n 4)
  simp only [readMaskingKey, if_true, hread, dif_pos hlen]

/-- The payload of a scanned frame, unmasked. -/
def WsFastPathFramePrefix.unmask (header : WsFastPathFramePrefix) (simd : Bool) (data : Bytes) :
    Bytes :=
  if header.mask then applyMaskBytesImpl simd header.maskingKey data else data

/-- The frame that the parser returns for a scanned header. -/
def WsFastPathFramePrefix.frame (header : WsFastPathFramePrefix) (payload : Bytes) : WsFrame where
  header := {
    payloadLength := header.payloadLength
    opcode := header.opcode
    maskingKey := header.maskingKey
    fin := header.fin
    mask := header.mask }
  payload := payload

/-- What the parser answers where the scanner gives a status or a header. -/
inductive Scanned (simd : Bool) (iovecs : IoVecs) (isServer : Bool) :
    Except WsMessageFastPathStatus WsFastPathFramePrefix → Prop
  | needMore : fromIOVec simd iovecs {} isServer = .error .Incomplete →
    Scanned simd iovecs isServer (.error .NeedMore)
  | fallback : (∀ {frame : WsFrame} {n : Nat},
      fromIOVec simd iovecs {} isServer = .ok (frame, n) →
        isControlFrame frame.header.opcode = true) →
    Scanned simd iovecs isServer (.error .Fallback)
  | frame {header : WsFastPathFramePrefix} {data : Bytes} :
    wsReadIovecBytes iovecs header.payloadOffset header.payloadLength = some data →
    data.length = header.payloadLength → isControlFrame header.opcode = false →
    2 ≤ header.frameLength →
    fromIOVec simd iovecs {} isServer =
      (match checkPayload simd header.opcode header.fin (header.unmask simd data) with
      | .error error => .error error
      | .ok () => .ok (header.frame (header.unmask simd data), header.frameLength)) →
    Scanned simd iovecs isServer (.ok header)

private theorem reserved_bits : ∀ n : Fin 256,
    (UInt8.ofNat n &&& 0x40 != 0 || UInt8.ofNat n &&& 0x20 != 0 || UInt8.ofNat n &&& 0x10 != 0) =
      (UInt8.ofNat n &&& 0x70 != 0) := by
  decide +kernel

/-- The three reserved bits at once. -/
theorem reserved_eq (byte : UInt8) :
    (byte &&& 0x40 != 0 || byte &&& 0x20 != 0 || byte &&& 0x10 != 0) = (byte &&& 0x70 != 0) := by
  have hbits := reserved_bits ⟨byte.toNat, byte.toNat_lt⟩
  rw [UInt8.ofNat_toNat] at hbits
  exact hbits

theorem scanned (simd : Bool) (iovecs : IoVecs) (isServer : Bool) :
    Scanned simd iovecs isServer (scanWsMessageFastPathPrefix iovecs isServer) := by
  have htotal : wsIovecTotalLength iovecs = iovecs.flatten.length := by
    rw [wsIovecTotalLength, length_flatten]
  unfold scanWsMessageFastPathPrefix
  simp only [htotal]
  split
  · next hshort =>
    refine .needMore ?_
    unfold fromIOVec
    simp only [getTotalLength, ← length_flatten, if_pos hshort]
  next hlong =>
  obtain ⟨byte1, byte2, rest, hbytes⟩ :
      ∃ byte1 byte2 rest, iovecs.flatten = byte1 :: byte2 :: rest := by
    rcases hflat : iovecs.flatten with _ | ⟨byte1, _ | ⟨byte2, rest⟩⟩
    · rw [hflat] at hlong; simp at hlong
    · rw [hflat] at hlong; simp at hlong
    exact ⟨byte1, byte2, rest, rfl⟩
  have hread₁ : wsReadIovecByte iovecs 0 = some byte1 :=
    wsReadIovecByte_eq (show iovecs.flatten = [] ++ byte1 :: byte2 :: rest from hbytes)
  have hread₂ : wsReadIovecByte iovecs 1 = some byte2 :=
    wsReadIovecByte_eq (show iovecs.flatten = [byte1] ++ byte2 :: rest from hbytes)
  obtain ⟨cursor, hshows, hparse⟩ := fromIOVec_cons_cons hbytes simd {} isServer
  simp only [hread₁, hread₂]
  -- Where the scanner falls back the parser rejects the frame or finds a control frame.
  split
  · next hrsv =>
    refine .fallback fun hok => ?_
    rw [hparse, reserved_eq, if_pos (by simpa using hrsv)] at hok
    cases hok
  next hrsv =>
  have hrsv' : (byte1 &&& 0x70 != 0) = false := by simpa using hrsv
  obtain ⟨⟨hrsv1, hrsv2⟩, hrsv3⟩ : ((byte1 &&& 0x40 != 0) = false ∧ (byte1 &&& 0x20 != 0) = false) ∧
      (byte1 &&& 0x10 != 0) = false := by
    rw [← reserved_eq] at hrsv'
    simpa only [Bool.or_eq_false_iff] using hrsv'
  simp only [hrsv1, hrsv2, hrsv3, Bool.or_false, Bool.false_eq_true, if_false] at hparse
  split
  · next hunknown =>
    refine .fallback fun hok => ?_
    rw [hparse, if_pos hunknown] at hok
    cases hok
  next hknown =>
  rw [if_neg hknown] at hparse
  split
  · next hdata =>
    refine .fallback fun hok => ?_
    rw [hparse] at hok
    split_ifs at hok
    obtain ⟨-, -, -, -, -, _, _, hhdr⟩ := readLengthAndPayload_ok hok
    rw [hhdr]
    exact hdata
  next hdata =>
  have hctrl : isControlFrame (.ofByte (byte1 &&& 0x0F)) = false := by simpa using hdata
  simp only [hctrl, Bool.false_and, Bool.false_eq_true, if_false] at hparse
  split
  · next hmask =>
    refine .fallback fun hok => ?_
    rw [hparse] at hok
    rw [Bool.or_eq_true] at hmask
    rcases hmask with hmask | hmask
    · rw [if_pos hmask] at hok
      cases hok
    split_ifs at hok
  next hmask =>
  -- From here on the parser has passed its checks and reads the same fields.
  simp only [Bool.or_eq_true, not_or, Bool.not_eq_true] at hmask
  simp only [hmask.1, hmask.2, Bool.false_eq_true, if_false] at hparse
  have hat : At iovecs cursor 2 := by
    refine ⟨Nat.le_of_not_lt hlong, ?_⟩
    rw [hbytes]
    exact hshows
  have hlen := lengthScanned hat byte2
  generalize scanPayloadLength iovecs iovecs.flatten.length byte2 = scan at hlen
  cases hlen with
  | needMore hmissing =>
    refine .needMore ?_
    rw [hparse, readLengthAndPayload, hmissing]
  | fallback hinv =>
    refine .fallback fun hok => ?_
    rw [hparse, readLengthAndPayload, hinv] at hok
    cases hok
  | @ok payloadLength headerLength cursor₁ hread hat₁ htwo =>
  simp only
  have hfits := lt_of_readPayloadLength hread
  rw [if_neg (by omega)]
  have hkey := keyScanned hat₁ (byte2 &&& 0x80 != 0)
  generalize scanMaskingKey iovecs iovecs.flatten.length headerLength (byte2 &&& 0x80 != 0) =
    scan at hkey
  rw [readLengthAndPayload, hread] at hparse
  simp only [hctrl, Bool.false_eq_true, false_and, if_false] at hparse
  cases hkey with
  | needMore hmissing =>
    refine .needMore ?_
    rw [hparse, hmissing]
  | @ok key headerLength' cursor₂ hread' hat₂ hle =>
  simp only
  rw [hread'] at hparse
  split
  · next hshort =>
    refine .needMore ?_
    rw [hparse]
    refine readPayload_incomplete simd hat₂.2 ?_
    have := hat₂.1
    rw [length_drop]
    simp only
    omega
  next hfits =>
  have hle' := Nat.le_of_not_lt hfits
  have hdata : ((iovecs.flatten.drop headerLength').take payloadLength).length =
      payloadLength := length_take_of_le (by rw [length_drop]; omega)
  refine .frame (wsReadIovecBytes_eq hle') hdata hctrl (by simp only; omega) ?_
  have hshows₂ := hat₂.2
  rw [← take_append_drop payloadLength (iovecs.flatten.drop headerLength')] at hshows₂
  rw [hparse]
  simp only
  rw [readPayload_eq simd hshows₂ hdata (lt_of_readPayloadLength hread), hdata]
  rfl

end Galay.Ws
