import Galay.Lib.LittleEndian

/-!
# BSON documents

The values of `mongo_value.h` and the codec of `bson.cc`. The encoder appends to a string that the
caller owns: every function returns the string as it leaves it, beside the result. The decoder
reads at a position of a string; a function that moves the position returns by how much.
-/

namespace Galay.Mongo

/-! ## Values -/

def isHexDigit (c : UInt8) : Bool :=
  (0x30 ≤ c && c ≤ 0x39) || (0x61 ≤ c && c ≤ 0x66) || (0x41 ≤ c && c ≤ 0x46)

def isHexObjectId (oid : Bytes) : Bool := oid.length == 24 && oid.all isHexDigit

/-- The text of an object id. `fromObjectId` is the only way to make one. -/
structure ObjectId where
  hex : Bytes
  isHex : isHexObjectId hex = true
  deriving DecidableEq

/-- A value. A double is its bit pattern, a timestamp is kept as a signed integer. -/
inductive MongoValue
  | null
  | bool (value : Bool)
  | int32 (value : Int32)
  | int64 (value : Int64)
  | double (bits : UInt64)
  | string (text : Bytes)
  | binary (binary : Bytes)
  | document (fields : List (Bytes × MongoValue))
  | array (values : List MongoValue)
  | objectId (oid : ObjectId)
  | dateTime (millis : Int64)
  | timestamp (ts : Int64)

abbrev MongoDocument := List (Bytes × MongoValue)

namespace MongoValue

def fromObjectId (oid : Bytes) : Except String MongoValue :=
  if h : isHexObjectId oid = true then
    .ok (.objectId ⟨oid, h⟩)
  else
    .error "ObjectId must be a 24-character hex string"

def fromDateTime (millis : Int64) : MongoValue := .dateTime millis

def fromTimestamp (ts : UInt64) : MongoValue := .timestamp ts.toInt64

end MongoValue

inductive BsonType
  | Double | String | Document | Array | Binary | ObjectId | Bool | DateTime | Null | Int32
  | Timestamp | Int64
  deriving DecidableEq

namespace BsonType

def byte : BsonType → UInt8
  | Double => 0x01
  | String => 0x02
  | Document => 0x03
  | Array => 0x04
  | Binary => 0x05
  | ObjectId => 0x07
  | Bool => 0x08
  | DateTime => 0x09
  | Null => 0x0A
  | Int32 => 0x10
  | Timestamp => 0x11
  | Int64 => 0x12

/-- The enumerator a byte is cast to, if it is one. -/
def ofByte (byte : UInt8) : Option BsonType :=
  match byte.toNat with
  | 0x01 => some Double
  | 0x02 => some String
  | 0x03 => some Document
  | 0x04 => some Array
  | 0x05 => some Binary
  | 0x07 => some ObjectId
  | 0x08 => some Bool
  | 0x09 => some DateTime
  | 0x0A => some Null
  | 0x10 => some Int32
  | 0x11 => some Timestamp
  | 0x12 => some Int64
  | _ => none

end BsonType

/-- The type byte `encodeElement` writes for a value. -/
def MongoValue.bsonType : MongoValue → BsonType
  | .null => .Null
  | .bool _ => .Bool
  | .int32 _ => .Int32
  | .int64 _ => .Int64
  | .double _ => .Double
  | .string _ => .String
  | .binary _ => .Binary
  | .document _ => .Document
  | .array _ => .Array
  | .objectId _ => .ObjectId
  | .dateTime _ => .DateTime
  | .timestamp _ => .Timestamp

/-! ## The encoder -/

def kBinarySubtypeGeneric : UInt8 := 0x00

variable (out : Bytes)

def writeInt32LE (value : Int32) : Bytes := out ++ Lib.toLe 4 value.toUInt32.toNat

def writeInt32LEAt (pos : Nat) (value : Int32) : Bytes :=
  out.take pos ++ Lib.toLe 4 value.toUInt32.toNat ++ out.drop (pos + 4)

def writeInt64LE (value : Int64) : Bytes := out ++ Lib.toLe 8 value.toUInt64.toNat

def writeDoubleLE (bits : UInt64) : Bytes := writeInt64LE out bits.toInt64

/-- A string that a function has appended to, and whether it failed on the way. -/
abbrev Appended := Bytes × Except String Unit

def writeCString (out value : Bytes) : Appended :=
  if (0 : UInt8) ∈ value then
    (out, .error "BSON CString must not contain embedded NUL bytes")
  else
    (out ++ value ++ [0], .ok ())

/-- `std::to_chars`. The buffer it is given holds the digits of every index. -/
def toChars (i : Nat) : Bytes := (Nat.toDigits 10 i).map fun c => UInt8.ofNat c.toNat

def hexToNibble (c : UInt8) : UInt8 :=
  if 0x30 ≤ c ∧ c ≤ 0x39 then c - 0x30
  else if 0x61 ≤ c ∧ c ≤ 0x66 then 10 + (c - 0x61)
  else if 0x41 ≤ c ∧ c ≤ 0x46 then 10 + (c - 0x41)
  else 0

/-- The loop over the pairs of digits of an object id. -/
def hexToBytes : Bytes → Bytes
  | hi :: lo :: rest => ((hexToNibble hi <<< 4) ||| hexToNibble lo) :: hexToBytes rest
  | _ => []

/-- The end of a document or an array that starts at `base`: the terminator, then the length in
the four bytes kept for it. -/
def patchLength (base : Nat) (out : Bytes) : Bytes :=
  writeInt32LEAt (out ++ [0]) base (Int32.ofNat ((out ++ [0]).length - base))

/-- What `appendDocument` does after its loop: a failure takes back what was written. -/
def closeDocument (base : Nat) : Appended → Appended
  | (out, .error error) => (out.take base, .error error)
  | (out, .ok ()) => (patchLength base out, .ok ())

/-- What `encodeElement` does after the loop over an array: a failure is passed on. -/
def closeArray (base : Nat) : Appended → Appended
  | (out, .error error) => (out, .error error)
  | (out, .ok ()) => (patchLength base out, .ok ())

/-- The four bytes of a length that is not known yet. -/
def openLength : Bytes := out ++ [0, 0, 0, 0]

variable {out}

mutual

/-- The part of `encodeElement` after the type and the key. -/
def encodeValue (out : Bytes) : MongoValue → Appended
  | .null => (out, .ok ())
  | .bool value => (out ++ [if value then 1 else 0], .ok ())
  | .int32 value => (writeInt32LE out value, .ok ())
  | .int64 value => (writeInt64LE out value, .ok ())
  | .double bits => (writeDoubleLE out bits, .ok ())
  | .string text => (writeInt32LE out (Int32.ofNat (text.length + 1)) ++ text ++ [0], .ok ())
  | .binary binary =>
    (writeInt32LE out (Int32.ofNat binary.length) ++ [kBinarySubtypeGeneric] ++ binary, .ok ())
  | .document fields => closeDocument out.length (encodeFields (openLength out) fields)
  | .array values => closeArray out.length (encodeValues (openLength out) 0 values)
  | .objectId oid => (out ++ hexToBytes oid.hex, .ok ())
  | .dateTime millis => (writeInt64LE out millis, .ok ())
  | .timestamp ts => (writeInt64LE out ts, .ok ())

/-- The loop of `appendDocument` over the fields, with `encodeElement` in it. -/
def encodeFields (out : Bytes) : List (Bytes × MongoValue) → Appended
  | [] => (out, .ok ())
  | (key, value) :: fields =>
    match writeCString (out ++ [value.bsonType.byte]) key with
    | (out, .error error) => (out, .error error)
    | (out, .ok ()) =>
      match encodeValue out value with
      | (out, .error error) => (out, .error error)
      | (out, .ok ()) => encodeFields out fields

/-- The loop of `encodeElement` over the elements of an array, from index `i`. -/
def encodeValues (out : Bytes) (i : Nat) : List MongoValue → Appended
  | [] => (out, .ok ())
  | value :: values =>
    match writeCString (out ++ [value.bsonType.byte]) (toChars i) with
    | (out, .error error) => (out, .error error)
    | (out, .ok ()) =>
      match encodeValue out value with
      | (out, .error error) => (out, .error error)
      | (out, .ok ()) => encodeValues out (i + 1) values

end

def encodeElement (out key : Bytes) (value : MongoValue) : Appended :=
  match writeCString (out ++ [value.bsonType.byte]) key with
  | (out, .error error) => (out, .error error)
  | (out, .ok ()) => encodeValue out value

def appendDocument (out : Bytes) (document : MongoDocument) : Appended :=
  closeDocument out.length (encodeFields (openLength out) document)

def encodeDocument (document : MongoDocument) : Except String Bytes :=
  match appendDocument [] document with
  | (_, .error error) => .error error
  | (out, .ok ()) => .ok out

/-- The loop of `appendDocumentWithDatabase`, which looks for the database on the way. -/
def encodeFieldsFindDb (out : Bytes) (hasDb : Bool) : MongoDocument → Appended × Bool
  | [] => ((out, .ok ()), hasDb)
  | (key, value) :: fields =>
    let hasDb := if !hasDb && key == ascii "$db" then true else hasDb
    match encodeElement out key value with
    | (out, .error error) => ((out, .error error), hasDb)
    | (out, .ok ()) => encodeFieldsFindDb out hasDb fields

def appendDocumentWithDatabase (out : Bytes) (document : MongoDocument) (database : Bytes) :
    Appended :=
  let base := out.length
  match encodeFieldsFindDb (openLength out) false document with
  | ((out, .error error), _) => (out.take base, .error error)
  | ((out, .ok ()), true) => (patchLength base out, .ok ())
  | ((out, .ok ()), false) =>
    match writeCString (out ++ [BsonType.String.byte]) (ascii "$db") with
    | (out, .error error) => (out.take base, .error error)
    | (out, .ok ()) =>
      (patchLength base
        (writeInt32LE out (Int32.ofNat (database.length + 1)) ++ database ++ [0]), .ok ())

/-! ## The decoder -/

def readInt32 (data : Bytes) (pos : Nat) : Except String Int32 :=
  if pos + 4 > data.length then
    .error "readInt32 out of range"
  else
    .ok (UInt32.ofNat (Lib.ofLe ((data.drop pos).take 4))).toInt32

def readInt64 (data : Bytes) (pos : Nat) : Except String Int64 :=
  if pos + 8 > data.length then
    .error "readInt64 out of range"
  else
    .ok (UInt64.ofNat (Lib.ofLe ((data.drop pos).take 8))).toInt64

def readDouble (data : Bytes) (pos : Nat) : Except String UInt64 := do
  let bits ← readInt64 data pos
  return bits.toUInt64

/-- The text up to the next NUL, and how far it and the NUL reach. -/
def readCString (data : Bytes) (pos : Nat) : Except String (Bytes × Nat) :=
  if pos ≥ data.length then
    .error "readCString out of range"
  else
    let value := (data.drop pos).takeWhile (· ≠ 0)
    if pos + value.length ≥ data.length then
      .error "CString terminator not found"
    else
      .ok (value, value.length + 1)

/-- The entry of `hex_chars` for half a byte. -/
def hexChar (nibble : UInt8) : UInt8 := if nibble < 10 then 0x30 + nibble else 0x57 + nibble

def bytesToHex (bytes : Bytes) : Bytes :=
  bytes.flatMap fun (byte : UInt8) => [hexChar (byte >>> 4), hexChar (byte &&& 0x0F)]

def decodeArrayFromDocument (document : MongoDocument) : List MongoValue := document.map (·.2)

mutual

/-- The document at the front of a string, and how many bytes it took. -/
def decodeDocument (data : Bytes) : Except String (MongoDocument × Nat) :=
  if data.length < 5 then
    .error "BSON document too short"
  else
    match readInt32 data 0 with
    | .error error => .error error
    | .ok totalLen =>
      if totalLen < 5 then
        .error "Invalid BSON length"
      else if totalLen.toNatClampNeg > data.length then
        .error "Incomplete BSON document"
      else if data[totalLen.toNatClampNeg - 1]? ≠ some 0 then
        .error "BSON document is not null terminated"
      else
        match decodeFields (data.take totalLen.toNatClampNeg) 4 [] with
        | .error error => .error error
        | .ok document => .ok (document, totalLen.toNatClampNeg)
termination_by 3 * data.length + 2
decreasing_by
  rw [List.length_take]
  omega

/-- The loop of `decodeDocument` over the bytes of one document. -/
def decodeFields (data : Bytes) (pos : Nat) (document : MongoDocument) :
    Except String MongoDocument :=
  if h : pos < data.length - 1 then
    let type := data[pos]
    match readCString data (pos + 1) with
    | .error error => .error error
    | .ok (key, keyLen) =>
      match decodeElementValue type data (pos + 1 + keyLen) with
      | .error error => .error error
      | .ok (value, valueLen) =>
        decodeFields data (pos + 1 + keyLen + valueLen) (document ++ [(key, value)])
  else
    .ok document
termination_by 3 * (data.length - pos) + 1

/-- The value at a position, and how far it reaches. -/
def decodeElementValue (type : UInt8) (data : Bytes) (pos : Nat) :
    Except String (MongoValue × Nat) :=
  match BsonType.ofByte type with
  | some .Double =>
    match readDouble data pos with
    | .error error => .error error
    | .ok bits => .ok (.double bits, 8)
  | some .String =>
    match readInt32 data pos with
    | .error error => .error error
    | .ok strLen =>
      if strLen ≤ 0 then
        .error "Invalid BSON string length"
      else if pos + 4 + strLen.toNatClampNeg > data.length then
        .error "BSON string out of range"
      else if data[pos + 4 + strLen.toNatClampNeg - 1]? ≠ some 0 then
        .error "BSON string not null terminated"
      else
        .ok (.string ((data.drop (pos + 4)).take (strLen.toNatClampNeg - 1)),
          4 + strLen.toNatClampNeg)
  | some .Document =>
    match decodeDocument (data.drop pos) with
    | .error error => .error error
    | .ok (document, consumed) => .ok (.document document, consumed)
  | some .Array =>
    match decodeDocument (data.drop pos) with
    | .error error => .error error
    | .ok (document, consumed) => .ok (.array (decodeArrayFromDocument document), consumed)
  | some .Binary =>
    match readInt32 data pos with
    | .error error => .error error
    | .ok blobLen =>
      if blobLen < 0 then
        .error "Invalid BSON binary length"
      else if pos + 4 + 1 + blobLen.toNatClampNeg > data.length then
        .error "BSON binary out of range"
      else
        .ok (.binary ((data.drop (pos + 4 + 1)).take blobLen.toNatClampNeg),
          4 + 1 + blobLen.toNatClampNeg)
  | some .ObjectId =>
    if pos + 12 > data.length then
      .error "BSON ObjectId out of range"
    else
      match MongoValue.fromObjectId (bytesToHex ((data.drop pos).take 12)) with
      | .error error => .error error
      | .ok value => .ok (value, 12)
  | some .Bool =>
    if h : pos + 1 > data.length then
      .error "BSON bool out of range"
    else
      .ok (.bool (data[pos] != 0), 1)
  | some .DateTime =>
    match readInt64 data pos with
    | .error error => .error error
    | .ok ts => .ok (MongoValue.fromDateTime ts, 8)
  | some .Null => .ok (.null, 0)
  | some .Int32 =>
    match readInt32 data pos with
    | .error error => .error error
    | .ok i32 => .ok (.int32 i32, 4)
  | some .Timestamp =>
    match readInt64 data pos with
    | .error error => .error error
    | .ok ts => .ok (MongoValue.fromTimestamp ts.toUInt64, 8)
  | some .Int64 =>
    match readInt64 data pos with
    | .error error => .error error
    | .ok i64 => .ok (.int64 i64, 8)
  | none => .error ("Unsupported BSON type: " ++ toString type.toNat)
termination_by 3 * (data.length - pos) + 3

end

end Galay.Mongo
