import Galay.Http2.Hpack.Huffman
import Galay.Http2.Hpack.Table

/-!
# The HPACK decoder (`HpackDecoder`)

The read position of the source is the list of bytes that are left. A failed decode may have
changed the dynamic table already, so the results come with the decoder after the call.
-/

namespace Galay.Http2

structure HpackDecoder where
  dynamicTable : HpackDynamicTable := {}
  maxTableSize : Nat := kDefaultHeaderTableSize
  /-- `none` is `SIZE_MAX`: no limit. -/
  maxHeaderListSize : Option Nat := none
  deriving DecidableEq, Repr

namespace HpackDecoder

/-- A new decoder for a table of the given size. -/
def ofMaxTableSize (maxTableSize : Nat) : HpackDecoder :=
  { dynamicTable := { maxSize := maxTableSize }, maxTableSize := maxTableSize }

/-! ## Primitive types -/

/-- The loop of `decodeInteger`; the guard keeps `value` below `2 ^ 32`. -/
def decodeIntegerTail : (value shift : Nat) → Bytes → Except Http2ErrorCode (Nat × Bytes)
  | _, _, [] => .error .CompressionError
  | value, shift, b :: data =>
    let payload := (b &&& 0x7F).toNat
    if shift ≥ 32 ∨ payload > (2 ^ 32 - 1 - value) >>> shift then .error .CompressionError
    else
      let value := value + payload <<< shift
      if b &&& 0x80 = 0 then .ok (value, data)
      else if shift + 7 ≥ 32 then .error .CompressionError
      else decodeIntegerTail value (shift + 7) data

def decodeInteger (data : Bytes) (prefixBits : Nat) : Except Http2ErrorCode (Nat × Bytes) :=
  match data with
  | [] => .error .CompressionError
  | b :: data =>
    let maxPrefix := 2 ^ prefixBits - 1
    let value := b.toNat &&& maxPrefix
    if value < maxPrefix then .ok (value, data) else decodeIntegerTail value 0 data

def decodeString (data : Bytes) : Except Http2ErrorCode (Bytes × Bytes) :=
  match data with
  | [] => .error .CompressionError
  | b :: _ =>
    let huffman := b &&& 0x80 ≠ 0
    match decodeInteger data 7 with
    | .error err => .error err
    | .ok (length, data) =>
      if length > data.length then .error .CompressionError
      else if huffman then
        match HpackHuffman.decode (data.take length) with
        | .error err => .error err
        | .ok result => .ok (result, data.drop length)
      else .ok (data.take length, data.drop length)

def getField (dec : HpackDecoder) (index : Nat) : Option Http2HeaderField :=
  if index = 0 then none
  else if index ≤ HpackStaticTable.size then HpackStaticTable.get index
  else dec.dynamicTable.get (index - HpackStaticTable.size - 1)

def setMaxTableSize (dec : HpackDecoder) (size : Nat) : HpackDecoder :=
  { dec with maxTableSize := size, dynamicTable := dec.dynamicTable.setMaxSize size }

def setMaxHeaderListSize (dec : HpackDecoder) (size : Option Nat) : HpackDecoder :=
  { dec with maxHeaderListSize := size }

/-! ## Header blocks -/

variable (dec : HpackDecoder)

/-- The name of a literal field: that of the entry of a positive index, else spelled out. -/
def decodeName (index : Nat) (data : Bytes) :
    Except Http2ErrorCode (Bytes × Bytes) :=
  if index > 0 then
    match dec.getField index with
    | none => .error .CompressionError
    | some field => .ok (field.name, data)
  else decodeString data

/-- A literal field: index of the name, the name itself when the index is `0`, the value. -/
def decodeLiteral (prefixBits : Nat) (data : Bytes) :
    Except Http2ErrorCode (Http2HeaderField × Bytes) :=
  match decodeInteger data prefixBits with
  | .error err => .error err
  | .ok (index, data) =>
    match dec.decodeName index data with
    | .error err => .error err
    | .ok (name, data) =>
      match decodeString data with
      | .error err => .error err
      | .ok (value, data) => .ok (⟨name, value⟩, data)

/-- Whether a field of this size breaks the limit on the header list. -/
def exceedsListSize (headerListSize fieldSize : Nat) : Bool :=
  match dec.maxHeaderListSize with
  | none => false
  | some limit => fieldSize > limit || headerListSize > limit - fieldSize

def addToTable (field : Http2HeaderField) : HpackDecoder :=
  { dec with dynamicTable := dec.dynamicTable.add field }

def setTableSize (size : Nat) : HpackDecoder :=
  { dec with dynamicTable := dec.dynamicTable.setMaxSize size }

/-- The loop of `decode`. Each round reads at least one byte, so as many rounds as there are
bytes are enough (`decodeLoop_rounds`). -/
def decodeLoop : (rounds : Nat) → HpackDecoder → Bytes → List Http2HeaderField → Nat →
    Except Http2ErrorCode (List Http2HeaderField) × HpackDecoder
  | _, dec, [], headers, _ => (.ok headers, dec)
  | 0, dec, _ :: _, _, _ => (.error .CompressionError, dec)
  | rounds + 1, dec, byte :: rest, headers, headerListSize =>
    if byte &&& 0x80 ≠ 0 then
      match decodeInteger (byte :: rest) 7 with
      | .error err => (.error err, dec)
      | .ok (index, data) =>
        match dec.getField index with
        | none => (.error .CompressionError, dec)
        | some field =>
          if dec.exceedsListSize headerListSize field.size then (.error .CompressionError, dec)
          else decodeLoop rounds dec data (headers ++ [field]) (headerListSize + field.size)
    else if byte &&& 0x40 ≠ 0 then
      match dec.decodeLiteral 6 (byte :: rest) with
      | .error err => (.error err, dec)
      | .ok (field, data) =>
        if dec.exceedsListSize headerListSize field.size then (.error .CompressionError, dec)
        else
          decodeLoop rounds (dec.addToTable field) data (headers ++ [field])
            (headerListSize + field.size)
    else if byte &&& 0x20 ≠ 0 then
      match decodeInteger (byte :: rest) 5 with
      | .error err => (.error err, dec)
      | .ok (size, data) =>
        if size > dec.maxTableSize then (.error .CompressionError, dec)
        else decodeLoop rounds (dec.setTableSize size) data headers headerListSize
    else
      match dec.decodeLiteral 4 (byte :: rest) with
      | .error err => (.error err, dec)
      | .ok (field, data) =>
        if dec.exceedsListSize headerListSize field.size then (.error .CompressionError, dec)
        else decodeLoop rounds dec data (headers ++ [field]) (headerListSize + field.size)

/-- Decode a header block. -/
def decode (data : Bytes) :
    Except Http2ErrorCode (List Http2HeaderField) × HpackDecoder :=
  decodeLoop data.length dec data [] 0

variable {dec}

/-! ## The request target alone -/

structure RequestTarget where
  method : Bytes := []
  path : Bytes := []
  ifNoneMatch : Bytes := []
  range : Bytes := []
  deriving DecidableEq, Repr

/-- The lambda `record_field`, after its check of the list size. -/
def RequestTarget.record (target : RequestTarget) (field : Http2HeaderField) : RequestTarget :=
  if field.name = ascii ":method" then { target with method := field.value }
  else if field.name = ascii ":path" then { target with path := field.value }
  else if field.name = ascii "if-none-match" then { target with ifNoneMatch := field.value }
  else if field.name = ascii "range" then { target with range := field.value }
  else target

/-- The loop of `decodeRequestTarget`. -/
def decodeRequestTargetLoop : (rounds : Nat) → HpackDecoder → Bytes → RequestTarget → Nat →
    Except Http2ErrorCode RequestTarget × HpackDecoder
  | _, dec, [], target, _ => (.ok target, dec)
  | 0, dec, _ :: _, _, _ => (.error .CompressionError, dec)
  | rounds + 1, dec, byte :: rest, target, headerListSize =>
    if byte &&& 0x80 ≠ 0 then
      match decodeInteger (byte :: rest) 7 with
      | .error err => (.error err, dec)
      | .ok (index, data) =>
        match dec.getField index with
        | none => (.error .CompressionError, dec)
        | some field =>
          if dec.exceedsListSize headerListSize field.size then (.error .CompressionError, dec)
          else
            decodeRequestTargetLoop rounds dec data (target.record field)
              (headerListSize + field.size)
    else if byte &&& 0x40 ≠ 0 then
      match dec.decodeLiteral 6 (byte :: rest) with
      | .error err => (.error err, dec)
      | .ok (field, data) =>
        if dec.exceedsListSize headerListSize field.size then (.error .CompressionError, dec)
        else
          decodeRequestTargetLoop rounds (dec.addToTable field) data (target.record field)
            (headerListSize + field.size)
    else if byte &&& 0x20 ≠ 0 then
      match decodeInteger (byte :: rest) 5 with
      | .error err => (.error err, dec)
      | .ok (size, data) =>
        if size > dec.maxTableSize then (.error .CompressionError, dec)
        else decodeRequestTargetLoop rounds (dec.setTableSize size) data target headerListSize
    else
      match dec.decodeLiteral 4 (byte :: rest) with
      | .error err => (.error err, dec)
      | .ok (field, data) =>
        if dec.exceedsListSize headerListSize field.size then (.error .CompressionError, dec)
        else
          decodeRequestTargetLoop rounds dec data (target.record field)
            (headerListSize + field.size)

def decodeRequestTarget (dec : HpackDecoder) (data : Bytes) :
    Except Http2ErrorCode RequestTarget × HpackDecoder :=
  decodeRequestTargetLoop data.length dec data {} 0

end HpackDecoder

end Galay.Http2
