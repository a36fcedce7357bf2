import Galay.Lib.BigEndian
import Galay.Lib.Xor
import Galay.Ws.Base

/-!
# The WebSocket frame codec (`galay-ws/protoc/ws_frame.cc`, `galay-ws/utils/ws_helper.cc`)

Builds for x86 and for NEON handle blocks of sixteen bytes at a time; the argument `simd` says
whether they do. The masking key that `fillMaskingKey` draws is an argument of the encoders.
-/

namespace Galay.Ws

open Lib (toBe ofBe loadWord storeWord xorBytes)

/-! ## Masking -/

namespace WsFrameParser

/-- The byte of the key for position `i` of the payload. -/
def keyByte (key : MaskingKey) (i : Nat) : UInt8 := key.1.getD (i % 4) 0

/-- The loops over whole blocks: `count` blocks of `width` bytes, then what is left. -/
def maskBlocks (width : Nat) (maskBlock : Bytes → Bytes) : (count : Nat) → Bytes → Bytes × Bytes
  | 0, data => ([], data)
  | count + 1, data =>
    let (masked, rest) := maskBlocks width maskBlock count (data.drop width)
    (maskBlock (data.take width) ++ masked, rest)

/-- A block combined with the repeated key as one word. -/
def maskWord (repeated block : Bytes) : Bytes :=
  storeWord block.length (loadWord block ^^^ loadWord repeated)

/-- The last loop, from position `i` on. -/
def maskTail (key : MaskingKey) : (i : Nat) → Bytes → Bytes
  | _, [] => []
  | i, b :: data => (b ^^^ keyByte key i) :: maskTail key (i + 1) data

def applyMaskBytesImpl (simd : Bool) (key : MaskingKey) (data : Bytes) : Bytes :=
  let maskArray := (List.range 16).map (keyByte key)
  let (vectors, data) :=
    if simd then maskBlocks 16 (xorBytes · maskArray) (data.length / 16) data else ([], data)
  let (words, data) := maskBlocks 8 (maskWord (key.1 ++ key.1)) (data.length / 8) data
  let (halfWord, data) :=
    if 4 ≤ data.length then maskBlocks 4 (maskWord key.1) 1 data else ([], data)
  let i := vectors.length + words.length + halfWord.length
  vectors ++ words ++ halfWord ++ maskTail key i data

def applyMask (simd : Bool) (key : MaskingKey) (data : Bytes) : Bytes :=
  applyMaskBytesImpl simd key data

/-! ## UTF-8 -/

/-- `(byte & 0xC0) != 0x80` fails. -/
def isTrailing (byte : UInt8) : Bool := byte &&& 0xC0 = 0x80

/-- The scalar loop. -/
def isValidUtf8Scalar : Bytes → Bool
  | [] => true
  | byte :: rest =>
    if byte ≤ 0x7F then isValidUtf8Scalar rest
    else if byte &&& 0xE0 = 0xC0 then
      match rest with
      | byte2 :: rest =>
        let codepoint := (byte &&& 0x1F).toNat <<< 6 ||| (byte2 &&& 0x3F).toNat
        if !isTrailing byte2 then false
        else if codepoint < 0x80 then false
        else isValidUtf8Scalar rest
      | _ => false
    else if byte &&& 0xF0 = 0xE0 then
      match rest with
      | byte2 :: byte3 :: rest =>
        let codepoint :=
          (byte &&& 0x0F).toNat <<< 12 ||| (byte2 &&& 0x3F).toNat <<< 6 ||| (byte3 &&& 0x3F).toNat
        if !isTrailing byte2 then false
        else if !isTrailing byte3 then false
        else if codepoint < 0x800 then false
        else if 0xD800 ≤ codepoint ∧ codepoint ≤ 0xDFFF then false
        else isValidUtf8Scalar rest
      | _ => false
    else if byte &&& 0xF8 = 0xF0 then
      match rest with
      | byte2 :: byte3 :: byte4 :: rest =>
        let codepoint :=
          (byte &&& 0x07).toNat <<< 18 ||| (byte2 &&& 0x3F).toNat <<< 12 |||
            (byte3 &&& 0x3F).toNat <<< 6 ||| (byte4 &&& 0x3F).toNat
        if !isTrailing byte2 then false
        else if !isTrailing byte3 then false
        else if !isTrailing byte4 then false
        else if codepoint < 0x10000 then false
        else if 0x10FFFF < codepoint then false
        else isValidUtf8Scalar rest
      | _ => false
    else false

/-- Whole blocks of sixteen ASCII bytes are skipped, up to the first block that is not. -/
def skipAsciiBlocks : (count : Nat) → Bytes → Bytes
  | 0, data => data
  | count + 1, data =>
    if (data.take 16).all fun byte => byte &&& 0x80 = 0 then skipAsciiBlocks count (data.drop 16)
    else data

def isValidUtf8Bytes (simd : Bool) (data : Bytes) : Bool :=
  isValidUtf8Scalar (if simd then skipAsciiBlocks (data.length / 16) data else data)

end WsFrameParser

/-! ## The cursor over the segments -/

/-- The segments from the current one on, and the position in the current one. -/
structure IovecCursor where
  iovecs : IoVecs
  offset : Nat
  totalLength : Nat
  consumed : Nat

namespace IovecCursor

variable (cursor : IovecCursor)

def remaining : Nat := cursor.totalLength - cursor.consumed

/-- The loop of `readBytes`: the bytes read and where the cursor stands after them. -/
def readLoop : (iovecs : IoVecs) → (offset need : Nat) → Option (Bytes × IoVecs × Nat)
  | [], offset, need => if need = 0 then some ([], [], offset) else none
  | iov :: iovecs, offset, need =>
    if need = 0 then some ([], iov :: iovecs, offset)
    else if iov.length ≤ offset then readLoop iovecs 0 need
    else
      let taken := min (iov.length - offset) need
      let out := (iov.drop offset).take taken
      if offset + taken = iov.length then
        match readLoop iovecs 0 (need - taken) with
        | some (rest, cursor) => some (out ++ rest, cursor)
        | none => none
      else some (out, iov :: iovecs, offset + taken)

def readBytes (len : Nat) : Option (Bytes × IovecCursor) :=
  match readLoop cursor.iovecs cursor.offset len with
  | some (out, iovecs, offset) =>
    some (out, { cursor with iovecs, offset, consumed := cursor.consumed + len })
  | none => none

def readByte : Option (UInt8 × IovecCursor) :=
  match cursor.readBytes 1 with
  | some ([byte], cursor) => some (byte, cursor)
  | _ => none

end IovecCursor

/-! ## Parsing -/

namespace WsFrameParser

def getTotalLength (iovecs : IoVecs) : Nat := (iovecs.map List.length).sum

def isValidCloseCode (code : Nat) : Bool :=
  1000 ≤ code && code ≤ 4999 && code != 1004 && code != 1005 && code != 1006 && code != 1015

/-- The payload length field and its extensions. -/
def readPayloadLength (cursor : IovecCursor) (byte2 : UInt8) :
    Except WsErrorCode (Nat × IovecCursor) :=
  let payloadLen := (byte2 &&& 0x7F).toNat
  if payloadLen < 126 then .ok (payloadLen, cursor)
  else if payloadLen = 126 then
    match cursor.readBytes 2 with
    | none => .error .Incomplete
    | some (lenBuf, cursor) =>
      let extendedLen := ofBe lenBuf
      if extendedLen < 126 then .error .InvalidPayloadLength else .ok (extendedLen, cursor)
  else
    match cursor.readBytes 8 with
    | none => .error .Incomplete
    | some (lenBuf, cursor) =>
      if lenBuf.headD 0 &&& 0x80 ≠ 0 then .error .InvalidPayloadLength
      else
        let extendedLen := ofBe lenBuf
        if extendedLen ≤ 0xFFFF then .error .InvalidPayloadLength else .ok (extendedLen, cursor)

/-- The masking key of a masked frame; an unmasked one leaves the field as it was. -/
def readMaskingKey (cursor : IovecCursor) (mask : Bool) (previous : MaskingKey) :
    Except WsErrorCode (MaskingKey × IovecCursor) :=
  if mask then
    match cursor.readBytes 4 with
    | none => .error .Incomplete
    | some (key, cursor) =>
      if h : key.length = 4 then .ok (⟨key, h⟩, cursor) else .error .Incomplete
  else .ok (previous, cursor)

variable (simd : Bool)

/-- The checks of a close payload and of a final text payload, after unmasking. -/
def checkPayload (opcode : WsOpcode) (fin : Bool) (payload : Bytes) :
    Except WsErrorCode Unit :=
  let close : Except WsErrorCode Unit :=
    if opcode = .Close then
      if payload.length = 1 then .error .InvalidPayloadLength
      else if 2 ≤ payload.length then
        if !isValidCloseCode (ofBe (payload.take 2)) then .error .InvalidCloseCode
        else if 2 < payload.length ∧ !isValidUtf8Bytes simd (payload.drop 2) then
          .error .InvalidUtf8
        else .ok ()
      else .ok ()
    else .ok ()
  match close with
  | .error error => .error error
  | .ok () =>
    if opcode = .Text ∧ fin then
      if !isValidUtf8Bytes simd payload then .error .InvalidUtf8 else .ok ()
    else .ok ()

/-- The part of `fromIOVec` after the header. -/
def readPayload (cursor : IovecCursor) (header : WsFrameHeader) :
    Except WsErrorCode (WsFrame × Nat) :=
  if cursor.remaining < header.payloadLength then .error .Incomplete
  else if 2 ^ 64 - 1 < header.payloadLength then .error .InvalidFrame
  else
    match cursor.readBytes header.payloadLength with
    | none => .error .InvalidFrame
    | some (payload, cursor) =>
      let payload := if header.mask then applyMask simd header.maskingKey payload else payload
      match checkPayload simd header.opcode header.fin payload with
      | .error error => .error error
      | .ok () => .ok ({ header, payload }, cursor.consumed)

/-- The part of `fromIOVec` after the second byte. -/
def readLengthAndPayload (cursor : IovecCursor) (byte2 : UInt8)
    (header : WsFrameHeader) : Except WsErrorCode (WsFrame × Nat) :=
  match readPayloadLength cursor byte2 with
  | .error error => .error error
  | .ok (payloadLength, cursor) =>
    if isControlFrame header.opcode ∧ 125 < payloadLength then .error .ControlFrameTooLarge
    else
      match readMaskingKey cursor header.mask header.maskingKey with
      | .error error => .error error
      | .ok (maskingKey, cursor) =>
        readPayload simd cursor { header with payloadLength, maskingKey }

/-- The frame parsed and the number of bytes consumed. What an error leaves in the frame is left
out: the readers of this repository do not look at it. -/
def fromIOVec (iovecs : IoVecs) (frame : WsFrame) (isServer : Bool) :
    Except WsErrorCode (WsFrame × Nat) :=
  let totalLength := getTotalLength iovecs
  if totalLength < 2 then .error .Incomplete
  else
    match IovecCursor.readByte ⟨iovecs, 0, totalLength, 0⟩ with
    | none => .error .Incomplete
    | some (byte1, cursor) =>
      let fin := byte1 &&& 0x80 != 0
      let rsv1 := byte1 &&& 0x40 != 0
      let rsv2 := byte1 &&& 0x20 != 0
      let rsv3 := byte1 &&& 0x10 != 0
      let opcodeValue := byte1 &&& 0x0F
      if rsv1 || rsv2 || rsv3 then .error .ReservedBitsSet
      else if 0x0A < opcodeValue ∨ (0x02 < opcodeValue ∧ opcodeValue < 0x08) then
        .error .InvalidOpcode
      else
        let opcode := WsOpcode.ofByte opcodeValue
        if isControlFrame opcode && !fin then .error .ControlFrameFragmented
        else
          match cursor.readByte with
          | none => .error .Incomplete
          | some (byte2, cursor) =>
            let mask := byte2 &&& 0x80 != 0
            if isServer && !mask then .error .MaskRequired
            else if !isServer && mask then .error .MaskNotAllowed
            else
              readLengthAndPayload simd cursor byte2
                { frame.header with opcode, fin, rsv1, rsv2, rsv3, mask }

end WsFrameParser

/-! ## Encoding -/

def wsFrameHeaderLength (payloadLen : Nat) (useMask : Bool) : Nat :=
  let headerLen := 2
  let headerLen :=
    if 126 ≤ payloadLen ∧ payloadLen ≤ 0xFFFF then headerLen + 2
    else if 0xFFFF < payloadLen then headerLen + 8
    else headerLen
  if useMask then headerLen + 4 else headerLen

def appendWsFrameHeader (opcode : WsOpcode) (fin rsv1 rsv2 rsv3 : Bool) (payloadLen : Nat)
    (useMask : Bool) (key : MaskingKey) : Bytes :=
  let byte1 : UInt8 := if fin then 0x80 else 0
  let byte1 := if rsv1 then byte1 ||| 0x40 else byte1
  let byte1 := if rsv2 then byte1 ||| 0x20 else byte1
  let byte1 := if rsv3 then byte1 ||| 0x10 else byte1
  let byte1 := byte1 ||| (opcode.toByte &&& 0x0F)
  let byte2 : UInt8 := if useMask then 0x80 else 0
  let length : Bytes :=
    if payloadLen < 126 then [byte2 ||| UInt8.ofNat payloadLen]
    else if payloadLen ≤ 0xFFFF then (byte2 ||| 126) :: toBe 2 payloadLen
    else (byte2 ||| 127) :: toBe 8 payloadLen
  byte1 :: length ++ (if useMask then key.1 else [])

namespace WsFrameParser

def encodeInto (simd : Bool) (frame : WsFrame) (useMask : Bool) (key : MaskingKey) : Bytes :=
  let out := appendWsFrameHeader frame.header.opcode frame.header.fin frame.header.rsv1
    frame.header.rsv2 frame.header.rsv3 frame.payload.length useMask key
  if frame.payload.length = 0 then out
  else if useMask then out ++ applyMaskBytesImpl simd key frame.payload
  else out ++ frame.payload

/-- The overload that copies its payload. -/
def encodeMessageInto (simd : Bool) (opcode : WsOpcode) (payload : Bytes) (fin useMask : Bool)
    (key : MaskingKey) : Bytes :=
  let out := appendWsFrameHeader opcode fin false false false payload.length useMask key
  if payload.length = 0 then out
  else if useMask then out ++ applyMaskBytesImpl simd key payload
  else out ++ payload

/-- The overload that takes its payload over: the header is moved in front of it, and what stands
behind the header is masked in place. -/
def encodeMessageIntoMove (simd : Bool) (opcode : WsOpcode) (payload : Bytes) (fin useMask : Bool)
    (key : MaskingKey) : Bytes :=
  let header := appendWsFrameHeader opcode fin false false false payload.length useMask key
  if payload = [] then header
  else
    let out := header ++ payload
    if useMask then
      out.take header.length ++ applyMaskBytesImpl simd key (out.drop header.length)
    else out

end WsFrameParser

end Galay.Ws
