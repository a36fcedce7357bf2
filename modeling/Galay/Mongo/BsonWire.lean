import Galay.Mongo.Bson

/-!
# What the encoder writes

`MongoValue.wire` says what a value looks like in a BSON document, and nothing of how it is
written. The encoder writes it when no key holds a NUL (`encodeValue_writes`), and it stops at the
first one that does.
-/

namespace Galay.Mongo

open List

/-- The elements of an array with the keys they are written under. -/
def indexed (i : Nat) : List MongoValue → MongoDocument
  | [] => []
  | value :: values => (toChars i, value) :: indexed (i + 1) values

theorem map_snd_indexed (i : Nat) (values : List MongoValue) :
    (indexed i values).map (·.2) = values := by
  induction values generalizing i with
  | nil => rfl
  | cons value values ih => rw [indexed, map_cons, ih]

/-- Length, elements and terminator of a document. -/
def framed (body : Bytes) : Bytes := Lib.toLe 4 (body.length + 5) ++ body ++ [0]

theorem length_framed (body : Bytes) : (framed body).length = body.length + 5 := by
  rw [framed, length_append, length_append, Lib.length_toLe, length_singleton]
  omega

mutual

def MongoValue.wire : MongoValue → Bytes
  | .null => []
  | .bool value => [if value then 1 else 0]
  | .int32 value => Lib.toLe 4 value.toUInt32.toNat
  | .int64 value => Lib.toLe 8 value.toUInt64.toNat
  | .double bits => Lib.toLe 8 bits.toNat
  | .string text => Lib.toLe 4 (text.length + 1) ++ text ++ [0]
  | .binary binary => Lib.toLe 4 binary.length ++ [kBinarySubtypeGeneric] ++ binary
  | .document fields => framed (fieldsWire fields)
  | .array values => framed (valuesWire 0 values)
  | .objectId oid => hexToBytes oid.hex
  | .dateTime millis => Lib.toLe 8 millis.toUInt64.toNat
  | .timestamp ts => Lib.toLe 8 ts.toUInt64.toNat

def fieldsWire : List (Bytes × MongoValue) → Bytes
  | [] => []
  | (key, value) :: fields =>
    [value.bsonType.byte] ++ (key ++ [0]) ++ value.wire ++ fieldsWire fields

def valuesWire (i : Nat) : List MongoValue → Bytes
  | [] => []
  | value :: values =>
    [value.bsonType.byte] ++ (toChars i ++ [0]) ++ value.wire ++ valuesWire (i + 1) values

/-- The keys of the documents in a value, at every depth. -/
def MongoValue.keys : MongoValue → List Bytes
  | .document fields => documentKeys fields
  | .array values => arrayKeys values
  | _ => []

def documentKeys : List (Bytes × MongoValue) → List Bytes
  | [] => []
  | (key, value) :: fields => key :: value.keys ++ documentKeys fields

def arrayKeys : List MongoValue → List Bytes
  | [] => []
  | value :: values => value.keys ++ arrayKeys values

end

theorem valuesWire_eq (i : Nat) (values : List MongoValue) :
    valuesWire i values = fieldsWire (indexed i values) := by
  induction values generalizing i with
  | nil => rfl
  | cons value values ih => rw [valuesWire, indexed, fieldsWire, ih]

theorem encodeValues_eq (out : Bytes) (i : Nat) (values : List MongoValue) :
    encodeValues out i values = encodeFields out (indexed i values) := by
  induction values generalizing out i with
  | nil => rw [encodeValues, indexed, encodeFields]
  | cons value values ih =>
  rw [encodeValues, indexed, encodeFields]
  simp only [ih]

/-- The loop over the fields is a loop of `encodeElement`. -/
theorem encodeFields_cons (out key : Bytes) (value : MongoValue) (fields : MongoDocument) :
    encodeFields out ((key, value) :: fields) =
      match encodeElement out key value with
      | (out, .error error) => (out, .error error)
      | (out, .ok ()) => encodeFields out fields := by
  rw [encodeFields, encodeElement]
  rcases writeCString (out ++ [value.bsonType.byte]) key with ⟨out, error | _⟩ <;> rfl

section Nested

variable {P : MongoValue → Prop}
  (scalar : ∀ value, (∀ fields, value ≠ .document fields) → (∀ values, value ≠ .array values) →
    P value)
  (document : ∀ fields : MongoDocument, (∀ field ∈ fields, P field.2) → P (.document fields))
  (array : ∀ values : List MongoValue, (∀ value ∈ values, P value) → P (.array values))

include scalar document array

mutual

/-- Induction over the nesting of documents and arrays. -/
theorem MongoValue.nested (value : MongoValue) : P value := by
  cases value with
  | document fields => exact document fields (nestedFields fields)
  | array values => exact array values (nestedValues values)
  | _ => exact scalar _ nofun nofun

theorem nestedFields (fields : List (Bytes × MongoValue)) : ∀ field ∈ fields, P field.2 := by
  cases fields with
  | nil => exact fun _ hfield => absurd hfield not_mem_nil
  | cons field fields =>
  obtain ⟨key, value⟩ := field
  intro other hother
  rcases List.mem_cons.1 hother with heq | hother
  · rw [heq]
    exact MongoValue.nested value
  exact nestedFields fields other hother

theorem nestedValues (values : List MongoValue) : ∀ value ∈ values, P value := by
  cases values with
  | nil => exact fun _ hval => absurd hval not_mem_nil
  | cons value values =>
  intro other hother
  rcases List.mem_cons.1 hother with heq | hother
  · rw [heq]
    exact MongoValue.nested value
  exact nestedValues values other hother

end

end Nested

/-! ## Writing -/

/-- Goes on with `next` if nothing has failed. -/
def Appended.andThen (r : Appended) (next : Bytes → Appended) : Appended :=
  match r with
  | (out, .error error) => (out, .error error)
  | (out, .ok ()) => next out

/-- A function that appends `wire` when no key holds a NUL, and fails when one does. -/
inductive Writes (keys : List Bytes) (wire out : Bytes) : Appended → Prop
  | wrote (hkeys : ∀ key ∈ keys, 0 ∉ key) : Writes keys wire out (out ++ wire, .ok ())
  | failed (hkeys : ∃ key ∈ keys, 0 ∈ key) (junk : Bytes) (error : String) :
    Writes keys wire out (out ++ junk, .error error)

namespace Writes

variable {keys keys' : List Bytes} {wire wire' out : Bytes} {r : Appended}

/-- A failure that takes back what was written. -/
theorem undone (hkeys : ∃ key ∈ keys, 0 ∈ key) (error : String) :
    Writes keys wire out (out, .error error) := by
  have H : Writes keys wire out (out ++ [], .error error) := .failed hkeys [] error
  rwa [append_nil] at H

theorem plain (out wire : Bytes) : Writes [] wire out (out ++ wire, .ok ()) :=
  .wrote fun _ hkey => absurd hkey not_mem_nil

/-- What was there before belongs to what is written. -/
theorem after {first : Bytes} (H : Writes keys wire (out ++ first) r) :
    Writes keys (first ++ wire) out r := by
  cases H with
  | wrote hkeys =>
    rw [append_assoc]
    exact .wrote hkeys
  | failed hkeys junk error =>
  rw [append_assoc]
  exact .failed hkeys _ error

/-- One writer after another, the second only if the first succeeds. -/
theorem andThen {next : Bytes → Appended} (H : Writes keys wire out r)
    (hnext : ∀ out, Writes keys' wire' out (next out)) :
    Writes (keys ++ keys') (wire ++ wire') out (r.andThen next) := by
  cases H with
  | failed hkeys junk error =>
    obtain ⟨key, hmem, hnul⟩ := hkeys
    exact .failed ⟨key, mem_append_left _ hmem, hnul⟩ junk error
  | wrote hkeys =>
  show Writes _ _ out (next (out ++ wire))
  apply after
  generalize next (out ++ wire) = r, hnext (out ++ wire) = H
  cases H with
  | wrote hkeys' =>
    refine .wrote fun key hmem => ?_
    rcases List.mem_append.1 hmem with hmem | hmem
    · exact hkeys key hmem
    exact hkeys' key hmem
  | failed hkeys' junk error =>
  obtain ⟨key, hmem, hnul⟩ := hkeys'
  exact .failed ⟨key, mem_append_right _ hmem, hnul⟩ junk error

end Writes

theorem writeCString_writes (out value : Bytes) :
    Writes [value] (value ++ [0]) out (writeCString out value) := by
  rw [writeCString]
  split
  · rename_i hnul
    exact .undone ⟨value, mem_singleton_self _, hnul⟩ _
  rename_i hnul
  rw [append_assoc]
  exact .wrote fun key hkey => List.mem_singleton.1 hkey ▸ hnul

theorem toLe_ofNat (n : Nat) : Lib.toLe 4 (Int32.ofNat n).toUInt32.toNat = Lib.toLe 4 n := by
  rw [Int32.toUInt32_ofNat', UInt32.toNat_ofNat']
  exact Lib.toLe_mod 4 n

theorem patchLength_openLength (out body : Bytes) :
    patchLength out.length (openLength out ++ body) = out ++ framed body := by
  have hlen : (openLength out ++ body ++ [0]).length - out.length = body.length + 5 := by
    rw [openLength]
    simp only [length_append, length_cons, length_nil]
    omega
  rw [patchLength, hlen, writeInt32LEAt, toLe_ofNat, openLength, framed]
  simp only [append_assoc, take_left', drop_append]
  simp

theorem closeDocument_writes {keys : List Bytes} {body out : Bytes} {r : Appended}
    (H : Writes keys body (openLength out) r) :
    Writes keys (framed body) out (closeDocument out.length r) := by
  cases H with
  | wrote hkeys =>
    rw [closeDocument, patchLength_openLength]
    exact .wrote hkeys
  | failed hkeys junk error =>
  rw [closeDocument, openLength, append_assoc, take_left]
  exact .undone hkeys error

theorem closeArray_writes {keys : List Bytes} {body out : Bytes} {r : Appended}
    (H : Writes keys body (openLength out) r) :
    Writes keys (framed body) out (closeArray out.length r) := by
  cases H with
  | wrote hkeys =>
    rw [closeArray, patchLength_openLength]
    exact .wrote hkeys
  | failed hkeys junk error =>
  rw [closeArray, openLength, append_assoc]
  exact .failed hkeys _ error

/-- The value is written as it should be, whatever was written before. -/
def WritesValue (value : MongoValue) : Prop :=
  ∀ out, Writes value.keys value.wire out (encodeValue out value)

theorem encodeFields_writes {fields : MongoDocument}
    (hfields : ∀ field ∈ fields, WritesValue field.2) (out : Bytes) :
    Writes (documentKeys fields) (fieldsWire fields) out (encodeFields out fields) := by
  induction fields generalizing out with
  | nil =>
    have H := Writes.plain out []
    rw [append_nil] at H
    rwa [documentKeys, fieldsWire, encodeFields]
  | cons field fields ih =>
  obtain ⟨key, value⟩ := field
  have htail := ih fun field hfield => hfields field (mem_cons_of_mem _ hfield)
  have hval : WritesValue value := hfields (key, value) (mem_cons_self ..)
  have hrest (out : Bytes) := (hval out).andThen htail
  have H := (writeCString_writes (out ++ [value.bsonType.byte]) key).andThen hrest
  rw [documentKeys, fieldsWire, encodeFields, append_assoc, append_assoc]
  exact H.after

/-- The digits of an index are no NUL. -/
theorem nul_not_mem_toChars (i : Nat) : 0 ∉ toChars i := by
  intro hmem
  obtain ⟨c, hc, heq⟩ := List.mem_map.1 hmem
  have hdigit := Nat.isDigit_of_mem_toDigits (by decide) (by decide) hc
  rw [Char.isDigit, Bool.and_eq_true, decide_eq_true_eq, decide_eq_true_eq] at hdigit
  have hlow : 48 ≤ c.toNat := hdigit.1
  have hhigh : c.toNat ≤ 57 := hdigit.2
  have hzero : (UInt8.ofNat c.toNat).toNat = 0 := by rw [heq]; rfl
  rw [Lib.toNat_byte (by omega)] at hzero
  omega

/-- The keys of an array's elements are plain, so it has the NULs of its elements. -/
theorem mem_documentKeys_indexed {i : Nat} {values : List MongoValue} {key : Bytes}
    (hnul : 0 ∈ key) : key ∈ documentKeys (indexed i values) ↔ key ∈ arrayKeys values := by
  induction values generalizing i with
  | nil => rw [indexed, documentKeys, arrayKeys]
  | cons value values ih =>
  have hkey : key ≠ toChars i := fun heq => nul_not_mem_toChars i (heq ▸ hnul)
  rw [indexed, documentKeys, arrayKeys, cons_append, mem_cons, mem_append,
    mem_append, ih, or_iff_right hkey]

theorem Writes.of_nuls {keys keys' : List Bytes} {wire out : Bytes} {r : Appended}
    (hkeys : ∀ key, 0 ∈ key → (key ∈ keys ↔ key ∈ keys')) (H : Writes keys wire out r) :
    Writes keys' wire out r := by
  cases H with
  | wrote hplain => exact .wrote fun key hmem hnul => hplain key ((hkeys key hnul).2 hmem) hnul
  | failed hbad junk error =>
  obtain ⟨key, hmem, hnul⟩ := hbad
  exact .failed ⟨key, (hkeys key hnul).1 hmem, hnul⟩ junk error

theorem encodeValue_writes (value : MongoValue) : WritesValue value := by
  apply MongoValue.nested
  · intro value hdocument harray out
    cases value with
    | document fields => exact absurd rfl (hdocument fields)
    | array values => exact absurd rfl (harray values)
    | null =>
      have H := Writes.plain out []
      rwa [append_nil] at H
    | bool value => exact .plain out _
    | int32 value => exact .plain out _
    | int64 value => exact .plain out _
    | double bits => exact .plain out _
    | string text =>
      rw [encodeValue, writeInt32LE, toLe_ofNat, append_assoc, append_assoc,
        ← append_assoc (Lib.toLe _ _)]
      exact .plain out _
    | binary binary =>
      rw [encodeValue, writeInt32LE, toLe_ofNat, append_assoc, append_assoc,
        ← append_assoc (Lib.toLe _ _)]
      exact .plain out _
    | objectId oid => exact .plain out _
    | dateTime millis => exact .plain out _
    | timestamp ts => exact .plain out _
  · intro fields hfields out
    rw [encodeValue, MongoValue.keys, MongoValue.wire]
    exact closeDocument_writes (encodeFields_writes hfields _)
  intro values hvalues out
  have hfields : ∀ field ∈ indexed 0 values, WritesValue field.2 := by
    intro field hfield
    apply hvalues
    rw [← map_snd_indexed 0 values]
    exact mem_map_of_mem hfield
  rw [encodeValue, MongoValue.keys, MongoValue.wire, encodeValues_eq, valuesWire_eq]
  exact (closeArray_writes (encodeFields_writes hfields _)).of_nuls
    fun key hnul => mem_documentKeys_indexed hnul

/-- `appendDocument` writes the document, or it leaves the string as it was. -/
theorem appendDocument_cases (out : Bytes) (document : MongoDocument) :
    (∀ key ∈ documentKeys document, 0 ∉ key) ∧
      appendDocument out document = (out ++ framed (fieldsWire document), .ok ()) ∨
    (∃ key ∈ documentKeys document, 0 ∈ key) ∧
      ∃ error, appendDocument out document = (out, .error error) := by
  have hfields : ∀ field ∈ document, WritesValue field.2 := fun field _ => encodeValue_writes field.2
  have H := encodeFields_writes hfields (openLength out)
  rw [appendDocument]
  generalize encodeFields (openLength out) document = r at H
  cases H with
  | wrote hkeys => exact .inl ⟨hkeys, by rw [closeDocument, patchLength_openLength]⟩
  | failed hkeys junk error =>
  refine .inr ⟨hkeys, error, ?_⟩
  rw [closeDocument, openLength, append_assoc, take_left]

end Galay.Mongo
