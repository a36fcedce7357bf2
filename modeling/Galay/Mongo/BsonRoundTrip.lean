import Galay.Lib.Cursor
import Galay.Mongo.BsonWire

/-!
# Decoding what was encoded

The decoder reads a value back from its wire form, wherever that stands (`decodeElementValue_wire`).
An object id comes back in lower case.
-/

namespace Galay.Mongo

open List

/-! ## Object ids -/

def lowerHex (c : UInt8) : UInt8 := if 0x41 ≤ c ∧ c ≤ 0x46 then c + 0x20 else c

private theorem hex_digits : ∀ n : Fin 256, isHexDigit (UInt8.ofNat n) = true →
    (hexToNibble (UInt8.ofNat n)).toNat < 16 ∧
    hexChar (hexToNibble (UInt8.ofNat n)) = lowerHex (UInt8.ofNat n) ∧
    isHexDigit (lowerHex (UInt8.ofNat n)) = true := by
  decide +kernel

theorem hexDigit_spec {c : UInt8} (h : isHexDigit c = true) :
    (hexToNibble c).toNat < 16 ∧ hexChar (hexToNibble c) = lowerHex c ∧
      isHexDigit (lowerHex c) = true := by
  have H := hex_digits ⟨c.toNat, c.toNat_lt⟩
  rw [UInt8.ofNat_toNat] at H
  exact H h

private theorem nibbles_split : ∀ hi lo : Fin 16,
    ((UInt8.ofNat hi <<< 4) ||| UInt8.ofNat lo) >>> 4 = UInt8.ofNat hi ∧
    ((UInt8.ofNat hi <<< 4) ||| UInt8.ofNat lo) &&& 0x0F = UInt8.ofNat lo := by
  decide +kernel

theorem nibbles_spec {hi lo : UInt8} (hhi : hi.toNat < 16) (hlo : lo.toNat < 16) :
    ((hi <<< 4) ||| lo) >>> 4 = hi ∧ ((hi <<< 4) ||| lo) &&& 0x0F = lo := by
  have H := nibbles_split ⟨hi.toNat, hhi⟩ ⟨lo.toNat, hlo⟩
  rwa [UInt8.ofNat_toNat, UInt8.ofNat_toNat] at H

theorem bytesToHex_hexToBytes {hex : Bytes} (hhex : ∀ c ∈ hex, isHexDigit c = true)
    (heven : hex.length % 2 = 0) : bytesToHex (hexToBytes hex) = hex.map lowerHex := by
  fun_induction hexToBytes hex with
  | case1 hi lo rest ih =>
    have hhi := hexDigit_spec (hhex hi (mem_cons_self ..))
    have hlo := hexDigit_spec (hhex lo (mem_cons_of_mem _ (mem_cons_self ..)))
    have hsplit := nibbles_spec hhi.1 hlo.1
    have hrest : bytesToHex (hexToBytes rest) = rest.map lowerHex := by
      apply ih
      · exact fun c hc => hhex c (mem_cons_of_mem _ (mem_cons_of_mem _ hc))
      rw [length_cons, length_cons] at heven
      omega
    rw [bytesToHex, flatMap_cons, hsplit.1, hsplit.2, hhi.2.1, hlo.2.1]
    rw [bytesToHex] at hrest
    rw [hrest]
    rfl
  | case2 hex hshort =>
  match hex with
  | [] => rfl
  | [_] => simp at heven
  | hi :: lo :: rest => exact absurd rfl (hshort hi lo rest)

theorem length_hexToBytes (hex : Bytes) : (hexToBytes hex).length = hex.length / 2 := by
  fun_induction hexToBytes hex with
  | case1 hi lo rest ih =>
    rw [length_cons, ih, length_cons, length_cons]
    omega
  | case2 hex hshort =>
  match hex with
  | [] => rfl
  | [_] => simp
  | hi :: lo :: rest => exact absurd rfl (hshort hi lo rest)

namespace ObjectId

theorem isHex_iff (hex : Bytes) :
    isHexObjectId hex = true ↔ hex.length = 24 ∧ ∀ c ∈ hex, isHexDigit c = true := by
  rw [isHexObjectId, Bool.and_eq_true, beq_iff_eq, all_eq_true]

variable (oid : ObjectId)

theorem isHex_lower : isHexObjectId (oid.hex.map lowerHex) = true := by
  obtain ⟨hlen, hhex⟩ := (isHex_iff _).1 oid.isHex
  refine (isHex_iff _).2 ⟨by rw [length_map, hlen], fun c hc => ?_⟩
  obtain ⟨d, hd, rfl⟩ := List.mem_map.1 hc
  exact (hexDigit_spec (hhex d hd)).2.2

/-- The object id with its digits in lower case. -/
def lower : ObjectId := ⟨oid.hex.map lowerHex, oid.isHex_lower⟩

theorem length_hexToBytes (oid : ObjectId) : (hexToBytes oid.hex).length = 12 := by
  rw [Mongo.length_hexToBytes, ((isHex_iff _).1 oid.isHex).1]

theorem fromObjectId_hexToBytes :
    MongoValue.fromObjectId (bytesToHex (hexToBytes oid.hex)) = .ok (.objectId oid.lower) := by
  obtain ⟨hlen, hhex⟩ := (isHex_iff _).1 oid.isHex
  rw [bytesToHex_hexToBytes hhex (by rw [hlen]), MongoValue.fromObjectId, dif_pos oid.isHex_lower]
  rfl

end ObjectId

mutual

/-- The value with its object ids in lower case, at every depth. -/
def MongoValue.lower : MongoValue → MongoValue
  | .document fields => .document (lowerFields fields)
  | .array values => .array (lowerValues values)
  | .objectId oid => .objectId oid.lower
  | value => value

def lowerFields : List (Bytes × MongoValue) → List (Bytes × MongoValue)
  | [] => []
  | (key, value) :: fields => (key, value.lower) :: lowerFields fields

def lowerValues : List MongoValue → List MongoValue
  | [] => []
  | value :: values => value.lower :: lowerValues values

end

theorem decodeArrayFromDocument_lower (i : Nat) (values : List MongoValue) :
    decodeArrayFromDocument (lowerFields (indexed i values)) = lowerValues values := by
  induction values generalizing i with
  | nil => rfl
  | cons value values ih =>
  rw [indexed, lowerFields, lowerValues, ← ih (i + 1)]
  rfl

/-! ## Reading at a position -/

section Reading

variable {data after : Bytes} {pos : Nat}

theorem toNat_ofNat_length {n : Nat} (h : n < 2 ^ 31) : (Int32.ofNat n).toNatClampNeg = n := by
  rw [Int32.toNatClampNeg, Int32.toInt_ofNat_of_lt h, Int.toNat_natCast]

theorem readInt32_value {value : Int32}
    (h : data.drop pos = Lib.toLe 4 value.toUInt32.toNat ++ after) :
    readInt32 data pos = .ok value := by
  have hle := Lib.le_of_drop h (by rw [Lib.length_toLe]; decide)
  have htake := Lib.take_of_drop h
  rw [Lib.length_toLe] at hle htake
  rw [readInt32, if_neg (by omega), htake, Lib.ofLe_toLe value.toUInt32.toNat_lt,
    UInt32.ofNat_toNat, Int32.toInt32_toUInt32]

theorem readInt32_length {n : Nat} (h : data.drop pos = Lib.toLe 4 n ++ after) :
    readInt32 data pos = .ok (Int32.ofNat n) := by
  rw [← toLe_ofNat] at h
  exact readInt32_value h

theorem readInt64_value {value : Int64}
    (h : data.drop pos = Lib.toLe 8 value.toUInt64.toNat ++ after) :
    readInt64 data pos = .ok value := by
  have hle := Lib.le_of_drop h (by rw [Lib.length_toLe]; decide)
  have htake := Lib.take_of_drop h
  rw [Lib.length_toLe] at hle htake
  rw [readInt64, if_neg (by omega), htake, Lib.ofLe_toLe value.toUInt64.toNat_lt,
    UInt64.ofNat_toNat, Int64.toInt64_toUInt64]

theorem readCString_value {key : Bytes} (hkey : 0 ∉ key)
    (h : data.drop pos = (key ++ [0]) ++ after) :
    readCString data pos = .ok (key, (key ++ [0]).length) := by
  have hle := Lib.le_of_drop h (by rw [length_append, length_singleton]; omega)
  have hval : (data.drop pos).takeWhile (· ≠ 0) = key := by
    rw [h, append_assoc, takeWhile_append_of_pos]
    · simp
    intro c hc
    exact decide_eq_true fun hzero => hkey (hzero ▸ hc)
  rw [length_append, length_singleton] at hle
  simp only [readCString, hval]
  rw [if_neg (by omega), if_neg (by omega), length_append, length_singleton]

end Reading

/-- The value is read back from its wire form at any position. -/
def ReadsBack (value : MongoValue) : Prop :=
  (∀ key ∈ value.keys, 0 ∉ key) → value.wire.length < 2 ^ 31 →
    ∀ (data after : Bytes) (pos : Nat), data.drop pos = value.wire ++ after → pos ≤ data.length →
      decodeElementValue value.bsonType.byte data pos = .ok (value.lower, value.wire.length)

/-- The loop of the decoder over the elements of a document. -/
theorem decodeFields_wire {fields : MongoDocument} (hfields : ∀ field ∈ fields, ReadsBack field.2)
    (hkeys : ∀ key ∈ documentKeys fields, 0 ∉ key) (hsize : (fieldsWire fields).length < 2 ^ 31)
    {data : Bytes} {pos : Nat} (hdata : data.drop pos = fieldsWire fields ++ [0])
    (document : MongoDocument) :
    decodeFields data pos document = .ok (document ++ lowerFields fields) := by
  induction fields generalizing pos document with
  | nil =>
    have hlen := congrArg List.length hdata
    rw [length_drop, fieldsWire] at hlen
    simp only [nil_append, length_singleton] at hlen
    rw [decodeFields, dif_neg (by omega), lowerFields, append_nil]
  | cons field fields ih =>
  obtain ⟨key, value⟩ := field
  rw [fieldsWire, append_assoc, append_assoc, append_assoc] at hdata
  rw [fieldsWire, length_append, length_append] at hsize
  rw [documentKeys] at hkeys
  have hkey : 0 ∉ key := hkeys key (mem_cons_self ..)
  have htype : data[pos]? = some value.bsonType.byte := Lib.getElem_of_drop hdata
  have hle := Lib.le_of_drop hdata Nat.one_pos
  have hkeyAt : data.drop (pos + 1) = (key ++ [0]) ++ (value.wire ++ (fieldsWire fields ++ [0])) :=
    Lib.drop_of_drop hdata
  have hread := readCString_value hkey hkeyAt
  have hvalueAt := Lib.drop_of_drop hkeyAt
  have hlong := Lib.le_of_drop hkeyAt (by rw [length_append, length_singleton]; omega)
  have hval : ReadsBack value := hfields (key, value) (mem_cons_self ..)
  have hplain : ∀ key ∈ value.keys, 0 ∉ key := fun other hother =>
    hkeys other (mem_cons_of_mem _ (mem_append_left _ hother))
  have hdecode := hval hplain (by omega) _ _ _ hvalueAt hlong
  have htailAt := Lib.drop_of_drop hvalueAt
  have hmore : pos < data.length - 1 := by
    have hend := congrArg List.length hkeyAt
    rw [length_drop] at hend
    simp only [length_append, length_singleton] at hend
    omega
  rw [getElem?_eq_getElem (by omega), Option.some.injEq] at htype
  rw [decodeFields, dif_pos hmore]
  simp only [htype, hread, hdecode]
  have hrest := ih (fun field hfield => hfields field (mem_cons_of_mem _ hfield))
    (fun other hother => hkeys other (mem_cons_of_mem _ (mem_append_right _ hother)))
    (by omega) htailAt (document ++ [(key, value.lower)])
  rw [hrest, lowerFields, append_assoc]
  rfl

/-- A document that stands at the front of a string. -/
theorem decodeDocument_framed {fields : MongoDocument}
    (hfields : ∀ field ∈ fields, ReadsBack field.2)
    (hkeys : ∀ key ∈ documentKeys fields, 0 ∉ key)
    (hsize : (framed (fieldsWire fields)).length < 2 ^ 31) (after : Bytes) :
    decodeDocument (framed (fieldsWire fields) ++ after) =
      .ok (lowerFields fields, (framed (fieldsWire fields)).length) := by
  have hlen := length_framed (fieldsWire fields)
  have hread : readInt32 (framed (fieldsWire fields) ++ after) 0 =
      .ok (Int32.ofNat (framed (fieldsWire fields)).length) := by
    apply readInt32_length
    rw [drop_zero, length_framed, framed, append_assoc, append_assoc]
  have hclamp := toNat_ofNat_length hsize
  have hlong : ¬ Int32.ofNat (framed (fieldsWire fields)).length < 5 := by
    rw [Int32.lt_iff_toInt_lt, Int32.toInt_ofNat_of_lt hsize]
    show ¬ (_ < (5 : Int))
    omega
  have hend : (framed (fieldsWire fields) ++ after)[(framed (fieldsWire fields)).length - 1]? =
      some 0 := by
    rw [getElem?_append_left (by omega)]
    have hlast : (framed (fieldsWire fields)).getLast? = some 0 := by
      rw [framed, getLast?_append, getLast?_singleton, Option.some_or]
    rwa [getLast?_eq_getElem?] at hlast
  have hloop : decodeFields (framed (fieldsWire fields)) 4 [] = .ok (lowerFields fields) := by
    rw [decodeFields_wire hfields hkeys (by omega), nil_append]
    rw [framed, append_assoc]
    exact drop_left' (Lib.length_toLe 4 _)
  rw [decodeDocument, if_neg (by rw [length_append]; omega)]
  simp only [hread]
  rw [if_neg hlong, hclamp, if_neg (by rw [length_append]; omega),
    if_neg (not_not_intro hend), take_left, hloop]

theorem ofByte_byte (type : BsonType) : BsonType.ofByte type.byte = some type := by
  cases type <;> rfl

theorem readsBack_string (text : Bytes) : ReadsBack (.string text) := by
  intro _ hsize data after pos hdata _
  rw [MongoValue.wire] at hdata hsize ⊢
  have hle := Lib.le_of_drop hdata
    (by rw [length_append, length_append, Lib.length_toLe]; omega)
  have hlast : data[pos + 4 + (text.length + 1) - 1]? = some 0 := by
    have hpos : pos + 4 + (text.length + 1) - 1 = pos + (4 + text.length) := by omega
    rw [hpos, ← getElem?_drop, hdata]
    rw [getElem?_append_left (by simp), getElem?_append_right (by simp)]
    simp
  rw [append_assoc, append_assoc] at hdata
  have hread := readInt32_length hdata
  have htext := Lib.drop_of_drop hdata
  simp only [length_append, Lib.length_toLe, length_singleton] at hle htext hsize ⊢
  have hclamp : (Int32.ofNat (text.length + 1)).toNatClampNeg = text.length + 1 :=
    toNat_ofNat_length (by omega)
  have hpositive : ¬ Int32.ofNat (text.length + 1) ≤ 0 := by
    rw [Int32.le_iff_toInt_le, Int32.toInt_ofNat_of_lt (by omega)]
    show ¬ (_ ≤ (0 : Int))
    omega
  rw [decodeElementValue, MongoValue.bsonType, ofByte_byte]
  simp only [hread]
  rw [if_neg hpositive, hclamp, if_neg (by omega), if_neg (not_not_intro hlast), htext,
    Nat.add_sub_cancel, take_left, MongoValue.lower, Nat.add_assoc]
  all_goals rintro _ ⟨⟩

theorem readsBack_binary (binary : Bytes) : ReadsBack (.binary binary) := by
  intro _ hsize data after pos hdata _
  rw [MongoValue.wire] at hdata hsize ⊢
  have hle := Lib.le_of_drop hdata
    (by rw [length_append, length_append, Lib.length_toLe]; omega)
  rw [append_assoc, append_assoc] at hdata
  have hread := readInt32_length hdata
  have hblob := Lib.drop_of_drop (Lib.drop_of_drop hdata)
  simp only [length_append, Lib.length_toLe, length_singleton] at hle hblob hsize ⊢
  have hclamp : (Int32.ofNat binary.length).toNatClampNeg = binary.length :=
    toNat_ofNat_length (by omega)
  have hpositive : ¬ Int32.ofNat binary.length < 0 := by
    rw [Int32.lt_iff_toInt_lt, Int32.toInt_ofNat_of_lt (by omega)]
    show ¬ (_ < (0 : Int))
    omega
  rw [decodeElementValue, MongoValue.bsonType, ofByte_byte]
  simp only [hread]
  rw [if_neg hpositive, hclamp, if_neg (by omega), hblob, take_left, MongoValue.lower]
  all_goals rintro _ ⟨⟩

theorem readsBack_objectId (oid : ObjectId) : ReadsBack (.objectId oid) := by
  intro _ _ data after pos hdata _
  rw [MongoValue.wire] at hdata ⊢
  have htwelve := oid.length_hexToBytes
  have hle := Lib.le_of_drop hdata (by omega)
  have htake := Lib.take_of_drop hdata
  rw [htwelve] at hle htake
  rw [decodeElementValue, MongoValue.bsonType, ofByte_byte, htwelve]
  simp only
  rw [if_neg (by omega), htake, oid.fromObjectId_hexToBytes, MongoValue.lower]

theorem readsBack_int64 {value : MongoValue} {word : Int64}
    (hwire : value.wire = Lib.toLe 8 word.toUInt64.toNat)
    (hdecode : ∀ data pos, readInt64 data pos = .ok word →
      decodeElementValue value.bsonType.byte data pos = .ok (value.lower, 8)) :
    ReadsBack value := by
  intro _ _ data after pos hdata _
  rw [hwire] at hdata ⊢
  rw [Lib.length_toLe]
  exact hdecode data pos (readInt64_value hdata)

theorem decodeElementValue_wire (value : MongoValue) : ReadsBack value := by
  apply MongoValue.nested
  · intro value hdocument harray
    cases value with
    | document fields => exact absurd rfl (hdocument fields)
    | array values => exact absurd rfl (harray values)
    | null =>
      intro _ _ data after pos _ _
      rw [decodeElementValue, MongoValue.bsonType, ofByte_byte, MongoValue.lower]
      · rfl
      all_goals rintro _ ⟨⟩
    | bool value =>
      intro _ _ data after pos hdata _
      rw [MongoValue.wire] at hdata ⊢
      have hle := Lib.le_of_drop hdata Nat.one_pos
      have hbyte : data[pos]? = some (if value then 1 else 0) := Lib.getElem_of_drop hdata
      rw [length_singleton] at hle ⊢
      rw [getElem?_eq_getElem (by omega), Option.some.injEq] at hbyte
      rw [decodeElementValue, MongoValue.bsonType, ofByte_byte]
      simp only
      rw [dif_neg (by omega), hbyte]
      cases value <;> rfl
    | int32 value =>
      intro _ _ data after pos hdata _
      rw [MongoValue.wire] at hdata ⊢
      rw [decodeElementValue, MongoValue.bsonType, ofByte_byte]
      simp only [readInt32_value hdata, Lib.length_toLe]
      rfl
    | int64 value =>
      refine readsBack_int64 rfl fun data pos hread => ?_
      rw [decodeElementValue, MongoValue.bsonType, ofByte_byte]
      simp only [hread]
      rfl
    | double bits =>
      have hwire : (MongoValue.double bits).wire = Lib.toLe 8 bits.toInt64.toUInt64.toNat := by
        rw [UInt64.toUInt64_toInt64, MongoValue.wire]
      refine readsBack_int64 hwire fun data pos hread => ?_
      rw [decodeElementValue, MongoValue.bsonType, ofByte_byte]
      simp only [readDouble, hread]
      rfl
    | string text => exact readsBack_string text
    | binary binary => exact readsBack_binary binary
    | objectId oid => exact readsBack_objectId oid
    | dateTime millis =>
      refine readsBack_int64 rfl fun data pos hread => ?_
      rw [decodeElementValue, MongoValue.bsonType, ofByte_byte]
      simp only [hread]
      rfl
    | timestamp ts =>
    refine readsBack_int64 rfl fun data pos hread => ?_
    rw [decodeElementValue, MongoValue.bsonType, ofByte_byte]
    simp only [hread]
    rfl
  · intro fields hfields hkeys hsize data after pos hdata _
    rw [MongoValue.wire] at hdata hsize ⊢
    rw [MongoValue.keys] at hkeys
    rw [decodeElementValue, MongoValue.bsonType, ofByte_byte]
    simp only [hdata, decodeDocument_framed hfields hkeys hsize]
    rw [MongoValue.lower]
  intro values hvalues hkeys hsize data after pos hdata _
  have hfields : ∀ field ∈ indexed 0 values, ReadsBack field.2 := by
    intro field hfield
    apply hvalues
    rw [← map_snd_indexed 0 values]
    exact mem_map_of_mem hfield
  have hplain : ∀ key ∈ documentKeys (indexed 0 values), 0 ∉ key := by
    intro key hkey hnul
    rw [MongoValue.keys] at hkeys
    exact hkeys key ((mem_documentKeys_indexed hnul).1 hkey) hnul
  rw [MongoValue.wire, valuesWire_eq] at hdata hsize ⊢
  rw [decodeElementValue, MongoValue.bsonType, ofByte_byte]
  simp only [hdata, decodeDocument_framed hfields hplain hsize]
  rw [MongoValue.lower, decodeArrayFromDocument_lower]

/-! ## Documents with a database -/

/-- The document that carries a database: its own one, or the one that is given. -/
def withDatabase (document : MongoDocument) (database : Bytes) : MongoDocument :=
  if document.any (·.1 == ascii "$db") then document
  else document ++ [(ascii "$db", .string database)]

theorem encodeFieldsFindDb_eq (out : Bytes) (hasDb : Bool) (document : MongoDocument) :
    (encodeFieldsFindDb out hasDb document).1 = encodeFields out document ∧
      ((encodeFields out document).2 = .ok () → (encodeFieldsFindDb out hasDb document).2 =
          (hasDb || document.any (·.1 == ascii "$db"))) := by
  induction document generalizing out hasDb with
  | nil =>
    rw [encodeFieldsFindDb, encodeFields]
    exact ⟨rfl, fun _ => (Bool.or_false _).symm⟩
  | cons field fields ih =>
  obtain ⟨key, value⟩ := field
  rw [encodeFieldsFindDb, encodeFields_cons]
  rcases encodeElement out key value with ⟨out, error | ⟨⟩⟩
  · exact ⟨rfl, by rintro ⟨⟩⟩
  refine ⟨(ih out _).1, fun hok => ?_⟩
  refine ((ih out _).2 hok).trans ?_
  rw [any_cons]
  cases hasDb <;> cases key == ascii "$db" <;> rfl

theorem encodeFields_append (out : Bytes) (document more : MongoDocument) :
    encodeFields out (document ++ more) =
      (encodeFields out document).andThen fun out => encodeFields out more := by
  induction document generalizing out with
  | nil =>
    rw [nil_append, encodeFields]
    rfl
  | cons field fields ih =>
  obtain ⟨key, value⟩ := field
  rw [cons_append, encodeFields_cons, encodeFields_cons]
  rcases encodeElement out key value with ⟨out, error | ⟨⟩⟩
  · rfl
  exact ih out

theorem appendDocumentWithDatabase_eq (out : Bytes) (document : MongoDocument)
    (database : Bytes) : appendDocumentWithDatabase out document database =
      appendDocument out (withDatabase document database) := by
  obtain ⟨hloop, hfound⟩ := encodeFieldsFindDb_eq (openLength out) false document
  rw [appendDocumentWithDatabase, appendDocument, withDatabase]
  rcases hfind : encodeFieldsFindDb (openLength out) false document with
    ⟨⟨written, error | ⟨⟩⟩, hasDb⟩
  all_goals
    rw [hfind] at hloop hfound
    rw [← hloop] at hfound
  · by_cases hany : document.any (·.1 == ascii "$db") = true
    · rw [if_pos hany, ← hloop]
      rfl
    rw [if_neg hany, encodeFields_append, ← hloop]
    rfl
  have hdb := hfound rfl
  rw [Bool.false_or] at hdb
  cases hasDb with
  | true => rw [if_pos hdb.symm, ← hloop]; rfl
  | false =>
  rw [if_neg (by rw [← hdb]; exact Bool.false_ne_true), encodeFields_append, ← hloop]
  rfl

/-- A document is read back as it was, but for the case of its object ids, unless a key holds a
NUL: then nothing is written. -/
theorem appendDocument_round_trip (out : Bytes) (document : MongoDocument) :
    ((∃ key ∈ documentKeys document, 0 ∈ key) ↔
      ∃ error, appendDocument out document = (out, .error error)) ∧
    ((¬ ∃ key ∈ documentKeys document, 0 ∈ key) → ∃ encoded,
      appendDocument out document = (out ++ encoded, .ok ()) ∧
      (encoded.length < 2 ^ 31 → ∀ trailing, decodeDocument (encoded ++ trailing) =
        .ok (lowerFields document, encoded.length))) ∧
    ∀ database, appendDocumentWithDatabase out document database =
      appendDocument out (withDatabase document database) := by
  refine ⟨?_, ?_, appendDocumentWithDatabase_eq out document⟩
  · rcases appendDocument_cases out document with ⟨hplain, hok⟩ | ⟨hnul, herr⟩
    · rw [hok]
      refine ⟨fun ⟨key, hmem, hnul⟩ => absurd hnul (hplain key hmem), fun ⟨error, heq⟩ => ?_⟩
      cases congrArg Prod.snd heq
    · exact ⟨fun _ => herr, fun _ => hnul⟩
  intro hplain
  rcases appendDocument_cases out document with ⟨hkeys, hok⟩ | ⟨hnul, _⟩
  · exact ⟨_, hok, fun hsize trailing =>
      decodeDocument_framed (fun field _ => decodeElementValue_wire field.2) hkeys hsize trailing⟩
  · exact absurd hnul hplain

end Galay.Mongo
