import Galay.Http2.Hpack.Huffman
import Galay.Http2.Hpack.Table

/-!
# The HPACK encoder (`HpackEncoder`)

The output string is returned instead of appended to; a method that changes the encoder returns
the encoder after it as well.
-/

namespace Galay.Http2

structure HpackEncoder where
  dynamicTable : HpackDynamicTable := {}
  pendingTableSize : Nat := 0
  useHuffman : Bool := false
  tableSizeUpdatePending : Bool := false
  deriving DecidableEq, Repr

namespace HpackEncoder

/-- A new encoder for a table of the given size. -/
def ofMaxTableSize (maxTableSize : Nat) : HpackEncoder :=
  { dynamicTable := { maxSize := maxTableSize } }

/-! ## Primitive types -/

/-- The loop of `encodeInteger` and the byte after it. A 32-bit value goes round at most four
times. -/
def encodeIntegerTail : (rounds value : Nat) → Bytes
  | 0, value => [UInt8.ofNat value]
  | rounds + 1, value =>
    if value ≥ 128 then
      UInt8.ofNat ((value &&& 0x7F) ||| 0x80) :: encodeIntegerTail rounds (value >>> 7)
    else [UInt8.ofNat value]

/-- The value is a `uint32_t`: a longer `size_t` is cut to its low 32 bits by the call. -/
def encodeInteger (value : Nat) (prefixBits : Nat) (prefixByte : Nat) : Bytes :=
  let value := value % 2 ^ 32
  let maxPrefix := 2 ^ prefixBits - 1
  if value < maxPrefix then [UInt8.ofNat (prefixByte ||| value)]
  else UInt8.ofNat (prefixByte ||| maxPrefix) :: encodeIntegerTail 4 (value - maxPrefix)

def encodeString (str : Bytes) (useHuffman : Bool) : Bytes :=
  if useHuffman then
    let encoded := HpackHuffman.encode str
    encodeInteger encoded.length 7 0x80 ++ encoded
  else encodeInteger str.length 7 0x00 ++ str

/-! ## Representations -/

def encodeIndexed (index : Nat) : Bytes := encodeInteger index 7 0x80

variable (enc : HpackEncoder)

/-- A literal field whose name is the entry of an index. -/
def encodeLiteral (prefixBits prefixByte nameIndex : Nat) (value : Bytes) :
    Bytes :=
  encodeInteger nameIndex prefixBits prefixByte ++ encodeString value enc.useHuffman

/-- A literal field with its name spelled out. -/
def encodeLiteralName (prefixByte : Nat) (name value : Bytes) : Bytes :=
  UInt8.ofNat prefixByte :: encodeString name enc.useHuffman ++ encodeString value enc.useHuffman

def encodeLiteralIndexed : (nameIndex : Nat) → (value : Bytes) → Bytes :=
  enc.encodeLiteral 6 0x40

def encodeLiteralIndexedName : (name value : Bytes) → Bytes :=
  enc.encodeLiteralName 0x40

def encodeLiteralWithoutIndexing :
    (nameIndex : Nat) → (value : Bytes) → Bytes :=
  enc.encodeLiteral 4 0x00

def encodeLiteralWithoutIndexingName : (name value : Bytes) → Bytes :=
  enc.encodeLiteralName 0x00

def encodeLiteralNeverIndexed : (nameIndex : Nat) → (value : Bytes) → Bytes :=
  enc.encodeLiteral 4 0x10

def encodeLiteralNeverIndexedName : (name value : Bytes) → Bytes :=
  enc.encodeLiteralName 0x10

variable {enc}

/-! ## Header blocks -/

variable (enc : HpackEncoder)

def setMaxTableSize (size : Nat) : HpackEncoder :=
  { enc with
    dynamicTable := enc.dynamicTable.setMaxSize size
    tableSizeUpdatePending := true
    pendingTableSize := size }

/-- Names that are never put into the dynamic table. -/
def sensitive (name : Bytes) : Bool :=
  name = ascii "authorization" || name = ascii "cookie" || name = ascii "set-cookie" ||
    name = ascii "proxy-authorization"

variable (field : Http2HeaderField)

def addToTable : HpackEncoder :=
  { enc with dynamicTable := enc.dynamicTable.add field }

def encodeField : Bytes × HpackEncoder :=
  let (staticIdx, staticNameOnly) := HpackStaticTable.find field.name field.value
  if staticIdx > 0 ∧ !staticNameOnly then (encodeIndexed staticIdx, enc)
  else
    let dyn := enc.dynamicTable.find field.name field.value
    match dyn with
    | some (dynIdx, false) => (encodeIndexed (HpackStaticTable.size + dynIdx + 1), enc)
    | _ =>
      if sensitive field.name then
        if staticIdx > 0 then (enc.encodeLiteralNeverIndexed staticIdx field.value, enc)
        else (enc.encodeLiteralNeverIndexedName field.name field.value, enc)
      else
        let output :=
          if staticIdx > 0 then enc.encodeLiteralIndexed staticIdx field.value
          else
            match dyn with
            | some (dynIdx, true) =>
              enc.encodeLiteralIndexed (HpackStaticTable.size + dynIdx + 1) field.value
            | _ => enc.encodeLiteralIndexedName field.name field.value
        (output, enc.addToTable field)

def encodeFieldStateless : Bytes :=
  let (staticIdx, staticNameOnly) := HpackStaticTable.find field.name field.value
  if staticIdx > 0 ∧ !staticNameOnly then encodeIndexed staticIdx
  else if staticIdx > 0 then enc.encodeLiteralWithoutIndexing staticIdx field.value
  else enc.encodeLiteralWithoutIndexingName field.name field.value

def encodeFields (enc : HpackEncoder) : List Http2HeaderField → Bytes × HpackEncoder
  | [] => ([], enc)
  | field :: headers =>
    let (output, enc) := enc.encodeField field
    let (rest, enc) := enc.encodeFields headers
    (output ++ rest, enc)

/-- The size update that is due at the start of the block. -/
def encodeSizeUpdate : Bytes × HpackEncoder :=
  if enc.tableSizeUpdatePending then
    (encodeInteger enc.pendingTableSize 5 0x20, { enc with tableSizeUpdatePending := false })
  else ([], enc)

def encode (headers : List Http2HeaderField) : Bytes × HpackEncoder :=
  let (update, enc) := enc.encodeSizeUpdate
  let (fields, enc) := enc.encodeFields headers
  (update ++ fields, enc)

def encodeStateless (headers : List Http2HeaderField) : Bytes :=
  headers.flatMap enc.encodeFieldStateless

end HpackEncoder

end Galay.Http2
