import Galay.Lib.FromChars

/-!
# Replies of a server and their parser (`galay-redis/protoc/redis_protocol.cc`)

A reply is written where the parser is told to; here it is returned beside the number of bytes that
it took. What `strtod` makes of a text is a parameter, and so is the type of its values.
-/

namespace Galay.Redis

open Galay.Lib

inductive RespType
  | SimpleString
  | Error
  | Integer
  | BulkString
  | Array
  | Null
  | Double
  | Boolean
  | BlobError
  | VerbatimString
  | BigNumber
  | Map
  | Set
  | Push
  deriving DecidableEq, Repr

/-- A constructor for each alternative of the data; the type is kept where it is not implied. -/
inductive RedisReply (δ : Type)
  | string (type : RespType) (text : Bytes)
  | integer (value : Int)
  | double (value : δ)
  | boolean (value : Bool)
  | array (type : RespType) (elements : List (RedisReply δ))
  | map (pairs : List (RedisReply δ × RedisReply δ))
  | null

inductive ParseError
  | Success
  | Incomplete
  | InvalidFormat
  | InvalidType
  | InvalidLength
  | BufferOverflow
  deriving DecidableEq, Repr

def kMaxRespBulkLength : Int := 512 * 1024 * 1024
def kMaxRespAggregateLength : Int := 512 * 1024 * 1024
def kMaxRespMapPairs : Int := kMaxRespAggregateLength / 2

def addWouldOverflow (lhs rhs : Nat) : Bool := 2 ^ 64 - 1 - rhs < lhs

/-! ## Line ends -/

def isCrlfAt (data : Bytes) (i : Nat) : Bool := data[i]? = some 0x0D ∧ data[i + 1]? = some 0x0A

/-- Block after block of sixteen bytes: the first line end that starts in one, or the end of the
last. -/
def findCRLFSimd (data : Bytes) : Nat → Nat → Nat
  | 0, p => p
  | blocks + 1, p =>
    match (List.range' p 16).find? (isCrlfAt data) with
    | some candidate => candidate
    | none => findCRLFSimd data blocks (p + 16)

/-- The loop over what `memchr` finds. -/
def memchrCRLF (data : Bytes) : Nat → Nat → Option Nat
  | 0, _ => none
  | fuel + 1, p =>
    if p + 1 < data.length then
      match (List.range' p (data.length - p - 1)).find? fun i => data[i]? = some 0x0D with
      | none => none
      | some candidate =>
        if data[candidate + 1]? = some 0x0A then some candidate
        else memchrCRLF data fuel (candidate + 1)
    else none

def findCRLF (data : Bytes) (offset : Nat) : Option Nat :=
  if data.length ≤ offset ∨ data.length < 2 then none
  else if data.length - offset < 64 then
    (List.range' offset (data.length - 1 - offset)).find? (isCrlfAt data)
  else
    memchrCRLF data data.length (findCRLFSimd data ((data.length - offset) / 16) offset)

def parseIntegerValue (text : Bytes) : Except ParseError Int :=
  match signedFromChars 64 text with
  | none => .error .InvalidFormat
  | some value => .ok value

/-! ## The parsers of the kinds -/

/-- What `strtod` gives for a text: the value, how far it read and whether `errno` is `ERANGE`. -/
structure Strtod (δ : Type) where
  value : δ
  parsedEnd : Nat
  erange : Bool

section Parser

variable {δ : Type}

abbrev ParseResult (δ : Type) := Except ParseError (Nat × RedisReply δ)

variable (data : Bytes)

def parseSimpleStringFast : ParseResult δ :=
  if 5 ≤ data.length ∧ data[3]? = some 0x0D ∧ data[4]? = some 0x0A then
    .ok (5, .string .SimpleString ((data.drop 1).take 2))
  else
    match findCRLF data 1 with
    | none => .error .Incomplete
    | some crlfPos =>
      .ok (crlfPos + 2, .string .SimpleString ((data.drop 1).take (crlfPos - 1)))

def parseErrorFast : ParseResult δ :=
  match findCRLF data 1 with
  | none => .error .Incomplete
  | some crlfPos => .ok (crlfPos + 2, .string .Error ((data.drop 1).take (crlfPos - 1)))

/-- The number behind the marker and the position behind its line. -/
def parseIntegerLine : Except ParseError (Nat × Int) :=
  match findCRLF data 1 with
  | none => .error .Incomplete
  | some crlfPos =>
    match parseIntegerValue ((data.drop 1).take (crlfPos - 1)) with
    | .error error => .error error
    | .ok value => .ok (crlfPos + 2, value)

def parseIntegerFast : ParseResult δ :=
  match parseIntegerLine data with
  | .error error => .error error
  | .ok (consumed, value) => .ok (consumed, .integer value)

def parseBulkStringFast : ParseResult δ :=
  match parseIntegerLine data with
  | .error error => .error error
  | .ok (contentStart, strLen) =>
    if strLen = -1 then .ok (contentStart, .null)
    else if strLen < 0 then .error .InvalidLength
    else if kMaxRespBulkLength < strLen then .error .InvalidLength
    else
      let strSize := strLen.toNat
      if addWouldOverflow contentStart strSize then .error .BufferOverflow
      else
        let contentEnd := contentStart + strSize
        if addWouldOverflow contentEnd 2 then .error .BufferOverflow
        else if data.length - contentStart < strSize ∨ data.length < contentEnd + 2 then
          .error .Incomplete
        else if data[contentEnd]? ≠ some 0x0D ∨ data[contentEnd + 1]? ≠ some 0x0A then
          .error .InvalidFormat
        else .ok (contentEnd + 2, .string .BulkString ((data.drop contentStart).take strSize))

def kMaxRespDoubleTextLength : Nat := 127

def parseDoubleFast (strtod : Bytes → Strtod δ) (data : Bytes) : ParseResult δ :=
  match findCRLF data 1 with
  | none => .error .Incomplete
  | some crlfPos =>
    let text := (data.drop 1).take (crlfPos - 1)
    if text.length = 0 ∨ kMaxRespDoubleTextLength < text.length then .error .InvalidFormat
    else
      let result := strtod text
      if result.erange ∨ result.parsedEnd ≠ text.length then .error .InvalidFormat
      else .ok (crlfPos + 2, .double result.value)

def parseBooleanFast : ParseResult δ :=
  if data.length < 4 then .error .Incomplete
  else if data[1]? ≠ some 0x74 ∧ data[1]? ≠ some 0x66 then .error .InvalidFormat
  else if data[2]? ≠ some 0x0D ∨ data[3]? ≠ some 0x0A then .error .InvalidFormat
  else .ok (4, .boolean (data[1]? = some 0x74))

variable {data}

/-- The elements of an aggregate, each read by `parse`. -/
def parseElements (parse : Bytes → ParseResult δ) :
    Nat → Bytes → Except ParseError (Nat × List (RedisReply δ))
  | 0, _ => .ok (0, [])
  | count + 1, data =>
    if data = [] then .error .Incomplete
    else
      match parse data with
      | .error error => .error error
      | .ok (elemConsumed, element) =>
        match parseElements parse count (data.drop elemConsumed) with
        | .error error => .error error
        | .ok (consumed, elements) => .ok (elemConsumed + consumed, element :: elements)

def parsePairs (parse : Bytes → ParseResult δ) :
    Nat → Bytes → Except ParseError (Nat × List (RedisReply δ × RedisReply δ))
  | 0, _ => .ok (0, [])
  | count + 1, data =>
    if data = [] then .error .Incomplete
    else
      match parse data with
      | .error error => .error error
      | .ok (keyConsumed, key) =>
        if data.drop keyConsumed = [] then .error .Incomplete
        else
          match parse (data.drop keyConsumed) with
          | .error error => .error error
          | .ok (valueConsumed, value) =>
            match parsePairs parse count ((data.drop keyConsumed).drop valueConsumed) with
            | .error error => .error error
            | .ok (consumed, pairs) =>
              .ok (keyConsumed + (valueConsumed + consumed), (key, value) :: pairs)

variable (parse : Bytes → ParseResult δ)

def parseArrayFast (data : Bytes) : ParseResult δ :=
  match parseIntegerLine data with
  | .error error => .error error
  | .ok (offset, arrayLen) =>
    if arrayLen = -1 then .ok (offset, .null)
    else if arrayLen < 0 then .error .InvalidLength
    else if kMaxRespAggregateLength < arrayLen then .error .InvalidLength
    else
      match parseElements parse arrayLen.toNat (data.drop offset) with
      | .error error => .error error
      | .ok (consumed, elements) => .ok (offset + consumed, .array .Array elements)

def parseMapFast (data : Bytes) : ParseResult δ :=
  match parseIntegerLine data with
  | .error error => .error error
  | .ok (offset, mapSize) =>
    if mapSize < 0 then .error .InvalidLength
    else if kMaxRespMapPairs < mapSize then .error .InvalidLength
    else
      match parsePairs parse mapSize.toNat (data.drop offset) with
      | .error error => .error error
      | .ok (consumed, pairs) => .ok (offset + consumed, .map pairs)

def parseSetFast (data : Bytes) : ParseResult δ :=
  match parseIntegerLine data with
  | .error error => .error error
  | .ok (offset, setSize) =>
    if setSize < 0 then .error .InvalidLength
    else if kMaxRespAggregateLength < setSize then .error .InvalidLength
    else
      match parseElements parse setSize.toNat (data.drop offset) with
      | .error error => .error error
      | .ok (consumed, elements) => .ok (offset + consumed, .array .Set elements)

variable {parse}

variable (strtod : Bytes → Strtod δ)

/-- One reply, whose parts are read by `parse`. -/
def parseReply (parse : Bytes → ParseResult δ) (data : Bytes) : ParseResult δ :=
  match data with
  | [] => .error .Incomplete
  | typeMarker :: _ =>
    match typeMarker with
    | 0x2B => parseSimpleStringFast data   -- '+'
    | 0x2D => parseErrorFast data          -- '-'
    | 0x3A => parseIntegerFast data        -- ':'
    | 0x24 => parseBulkStringFast data     -- '$'
    | 0x2A => parseArrayFast parse data    -- '*'
    | 0x2C => parseDoubleFast strtod data  -- ','
    | 0x23 => parseBooleanFast data        -- '#'
    | 0x25 => parseMapFast parse data      -- '%'
    | 0x7E => parseSetFast parse data      -- '~'
    | 0x3E => parseArrayFast parse data    -- '>'
    | 0x3D => parseBulkStringFast data     -- '='
    | 0x28 => parseSimpleStringFast data   -- '('
    | 0x21 => parseBulkStringFast data     -- '!'
    | _ => .error .InvalidType

/-- Replies that are nested at most `depth` deep. -/
def parseNested : Nat → Bytes → ParseResult δ
  | 0 => fun _ => .error .Incomplete
  | depth + 1 => parseReply strtod (parseNested depth)

/-- No reply is nested deeper than it is long. -/
def parseFast (data : Bytes) : ParseResult δ := parseNested strtod (data.length + 1) data

end Parser

/-! ## The replies of a buffer (`galay-redis/async/redis_client.cc`) -/

inductive ParseChunkState
  | Done
  | NeedMore
  | ParseError
  deriving DecidableEq, Repr

structure ParseChunkResult (δ : Type) where
  consumed : Nat
  state : ParseChunkState
  values : List (RedisReply δ)

/-- `parseRepliesFromChunk`, with the number of replies that are still expected. -/
def parseRepliesFromChunk {δ : Type} (strtod : Bytes → Strtod δ) :
    Nat → Bytes → ParseChunkResult δ
  | 0, _ => ⟨0, .Done, []⟩
  | expected + 1, data =>
    if data = [] then ⟨0, .NeedMore, []⟩
    else
      match parseFast strtod data with
      | .ok (parsed, reply) =>
        let result := parseRepliesFromChunk strtod expected (data.drop parsed)
        ⟨parsed + result.consumed, result.state, reply :: result.values⟩
      | .error .Incomplete => ⟨0, .NeedMore, []⟩
      | .error _ => ⟨0, .ParseError, []⟩

end Galay.Redis
