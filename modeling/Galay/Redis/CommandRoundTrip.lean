import Galay.Redis.Encoder
import Galay.Redis.ReplyStream

/-!
# Commands that are read again

What the encoder writes for a list of parts is the wire form of an array of bulk strings, so that the
parser gives the parts back. The first line end behind a marker is the one behind the decimal number,
whatever the parts contain.
-/

namespace Galay.Redis

open List
open Galay.Lib

variable {δ : Type} (strtod : Bytes → Strtod δ)

theorem plain_of_forall_ne (h : ∀ c ∈ text, c ≠ 0x0D) : Plain text := by
  intro j hj hcrlf
  have hcr := (isCrlfAt_iff.1 hcrlf).1
  rw [getElem?_append_left hj, getElem?_eq_getElem hj] at hcr
  exact h _ (getElem_mem hj) (Option.some.inj hcr)

theorem plain_signedNumeral (value : Int) : Plain (signedNumeral value) := by
  refine plain_of_forall_ne fun c hc => ?_
  rintro rfl
  rcases mem_signedNumeral hc with hsign | hdigit
  · cases hsign
  cases hdigit

theorem plain_numeral (n : Nat) : Plain (numeral 10 n) := by
  have hplain := plain_signedNumeral n
  rwa [signedNumeral_natCast] at hplain

theorem parseIntegerValue_signedNumeral (hmin : -2 ^ 63 ≤ value)
    (hmax : value < 2 ^ 63) : parseIntegerValue (signedNumeral value) = .ok value := by
  rw [parseIntegerValue, signedFromChars_signedNumeral hmin hmax]

theorem parseIntegerValue_numeral (hmax : n < 2 ^ 63) :
    parseIntegerValue (numeral 10 n) = .ok n := by
  have hval : parseIntegerValue (signedNumeral n) = .ok n :=
    parseIntegerValue_signedNumeral (by omega) (by omega)
  rwa [signedNumeral_natCast] at hval

namespace RespEncoder

/-- The replies that parts are read as. -/
def bulkReplies (parts : List Bytes) : List (RedisReply δ) := parts.map (.string .BulkString)

theorem leaf_bulkString (hmax : value.length ≤ kMaxRespBulkLength) :
    Leaf strtod (.string .BulkString value) (bulkString value) false := by
  have hsize : value.length ≤ 512 * 1024 * 1024 := Int.ofNat_le.1 hmax
  have hdigits : (numeral 10 value.length).length ≤ 10 :=
    length_numeral_le (by decide) (by decide) (by omega)
  exact .bulk (by decide) (plain_numeral _) (parseIntegerValue_numeral (by omega)) hmax (by omega)

variable {parts : List Bytes}

theorem replies_bulkReplies (hparts : ∀ part ∈ parts, part.length ≤ kMaxRespBulkLength) :
    Replies strtod false (bulkReplies parts) (parts.flatMap bulkString) false := by
  induction parts with
  | nil => exact .nil
  | cons part parts ih =>
  rw [flatMap_cons]
  exact .leaf (leaf_bulkString strtod (hparts part mem_cons_self))
    (ih fun p hp => hparts p (mem_cons_of_mem _ hp))

theorem closed_encodeArray (hlen : parts.length ≤ kMaxRespAggregateLength)
    (hparts : ∀ part ∈ parts, part.length ≤ kMaxRespBulkLength) :
    Closed strtod (.array .Array (bulkReplies parts)) (encodeArray parts) := by
  have hsize : parts.length ≤ 512 * 1024 * 1024 := Int.ofNat_le.1 hlen
  have hcount : (bulkReplies parts : List (RedisReply δ)).length = parts.length := length_map _
  have haggregate : @Aggregate δ 0x2A parts.length
      (bulkReplies parts : List (RedisReply δ)).length (.array .Array) := by
    rw [hcount]
    exact .array (by decide) hlen
  rw [encodeArray_eq, ← append_nil (0x2A :: _)]
  exact .aggregate haggregate (plain_numeral _) (parseIntegerValue_numeral (by omega))
    (replies_bulkReplies strtod hparts) .nil

theorem closed_encodeInteger (value : Int64) :
    Closed strtod (.integer value.toInt) (encodeInteger value) := by
  have hmin := value.le_toInt
  have hmax := value.toInt_lt
  have hleaf : Leaf strtod (.integer value.toInt) (encodeInteger value) false :=
    .integer (plain_signedNumeral _) (parseIntegerValue_signedNumeral (by omega) (by omega))
  rw [← append_nil (encodeInteger value)]
  exact .leaf hleaf .nil

/-- An array that is too long for the parser is refused. -/
theorem parseFast_encodeArray_of_lt (hlen : kMaxRespAggregateLength < parts.length)
    (hmax : parts.length < 2 ^ 63) (rest : Bytes) :
    parseFast strtod (encodeArray parts ++ rest) = .error .InvalidLength := by
  have hline := parseIntegerLine_line 0x2A (plain_numeral parts.length)
    (parseIntegerValue_numeral hmax) (parts.flatMap bulkString ++ rest)
  have hsize : 512 * 1024 * 1024 < parts.length := Int.ofNat_lt.1 hlen
  rw [encodeArray_eq, cons_append, append_assoc, parseFast_eq,
    parseReply_array (by decide), parseArrayFast, hline]
  dsimp only
  rw [if_neg (by omega), if_neg (by omega), if_pos hlen]

/-- The encoders of the same parts write the same bytes. -/
structure SameEncoding (parts : List Bytes) : Prop where
  encodeCommandParts : encodeCommandParts parts = encodeArray parts
  encodeCommandContainer (typed : List CommandPart) (htyped : typed.map CommandPart.bytes = parts) :
    encodeCommandContainer typed = encodeArray parts
  appendParts (out : Bytes) : appendParts out parts = out ++ encodeArray parts
  appendCommandFastParts (out : Bytes) : appendCommandFastParts out parts = out ++ encodeArray parts
  append (out cmd : Bytes) (args : List Bytes) (hparts : cmd :: args = parts) :
    append out cmd args = out ++ encodeArray parts
  appendCommandFast (out cmd : Bytes) (args : List Bytes) (hparts : cmd :: args = parts) :
    appendCommandFast out cmd args = out ++ encodeArray parts
  encodeCommand (cmd : Bytes) (args : List Bytes) (hparts : cmd :: args = parts) :
    encodeCommand cmd args = encodeArray parts
  encodeCommandPack (cmd : Bytes) (args : List CommandPart)
    (hparts : cmd :: args.map CommandPart.bytes = parts) :
    encodeCommandPack cmd args = encodeArray parts

theorem sameEncoding (parts : List Bytes) : SameEncoding parts where
  encodeCommandParts := encodeCommandParts_eq parts
  encodeCommandContainer typed htyped := htyped ▸ encodeCommandContainer_eq typed
  appendParts out := appendParts_eq out parts
  appendCommandFastParts out := appendCommandFastParts_eq out parts
  append out cmd args hparts := hparts ▸ append_eq out cmd args
  appendCommandFast out cmd args hparts := hparts ▸ appendCommandFast_eq out cmd args
  encodeCommand cmd args hparts := hparts ▸ encodeCommand_eq cmd args
  encodeCommandPack cmd args hparts := hparts ▸ encodeCommandPack_eq cmd args

end RespEncoder

open RespEncoder

/-- The encoders of a command agree. The parser gives the parts of a command back if they are not
too many or too long, and takes exactly their encoding, whatever follows; it gives every integer back. -/
theorem command_round_trip :
    (∀ parts, SameEncoding parts) ∧
    (∀ parts : List Bytes, parts.length ≤ kMaxRespAggregateLength →
      (∀ part ∈ parts, part.length ≤ kMaxRespBulkLength) → ∀ rest,
        parseFast strtod (encodeArray parts ++ rest) =
          .ok ((encodeArray parts).length, .array .Array (bulkReplies parts))) ∧
    ∀ (value : Int64) (rest : Bytes), parseFast strtod (encodeInteger value ++ rest) =
      .ok ((encodeInteger value).length, .integer value.toInt) :=
  ⟨sameEncoding,
    fun _ hlen hparts _ => (closed_encodeArray strtod hlen hparts).read_one nofun,
    fun value _ => (closed_encodeInteger strtod value).read_one nofun⟩

/-- Two parts, one of them a line end. -/
theorem command_round_trip_two :
    parseFast noDouble (encodeArray [ascii "GET", CRLF]) =
      .ok (21, .array .Array [.string .BulkString (ascii "GET"), .string .BulkString CRLF]) := by
  have hparts : ∀ part ∈ [ascii "GET", CRLF], (part.length : Int) ≤ kMaxRespBulkLength := by decide
  have h := (command_round_trip noDouble).2.1 [ascii "GET", CRLF] (by decide) hparts []
  rwa [append_nil] at h

/-- A part more than the parser takes: the command is written, and refused. -/
theorem not_command_round_trip :
    ¬ ∀ parts : List Bytes, (∀ part ∈ parts, part.length ≤ kMaxRespBulkLength) →
      parseFast noDouble (encodeArray parts) =
        .ok ((encodeArray parts).length, .array .Array (bulkReplies parts)) := by
  intro h
  have hlen : (List.replicate (512 * 1024 * 1024 + 1) ([] : Bytes)).length =
      512 * 1024 * 1024 + 1 := length_replicate
  have hparse := h (List.replicate (512 * 1024 * 1024 + 1) []) fun part hpart => by
    rw [eq_of_mem_replicate hpart]
    decide
  have hmany : kMaxRespAggregateLength <
      (List.replicate (512 * 1024 * 1024 + 1) ([] : Bytes)).length := by
    rw [hlen]
    decide
  have hrefused := parseFast_encodeArray_of_lt noDouble hmany (by rw [hlen]; decide) []
  rw [append_nil, hparse] at hrefused
  cases hrefused

end Galay.Redis
