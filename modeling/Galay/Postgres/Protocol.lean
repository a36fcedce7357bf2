import Galay.Lib.Cursor
import Galay.Lib.Framed
import Galay.Lib.FromChars

/-!
# The PostgreSQL wire protocol

The message parsers of `postgres_protocol.cc` and the values they fill. A parser is given the payload
of a message; where the source counts positions, what is left of the payload is passed on.
-/

namespace Galay.Postgres

/-! ## Values -/

inductive PostgresErrorType
  | POSTGRES_ERROR_CONNECTION | POSTGRES_ERROR_AUTH | POSTGRES_ERROR_PROTOCOL
  | POSTGRES_ERROR_TIMEOUT | POSTGRES_ERROR_SEND | POSTGRES_ERROR_RECV
  | POSTGRES_ERROR_CONNECTION_CLOSED | POSTGRES_ERROR_PREPARED_STMT | POSTGRES_ERROR_SERVER
  | POSTGRES_ERROR_INTERNAL | POSTGRES_ERROR_BUFFER_OVERFLOW | POSTGRES_ERROR_INVALID_PARAM
  deriving DecidableEq

structure PostgresError where
  type : PostgresErrorType
  extraMessage : Bytes := []
  sqlState : Bytes := []
  severity : Bytes := []
  deriving DecidableEq

structure RowDescriptionField where
  name : Bytes
  tableOid : Nat
  columnIndex : Int
  typeOid : Nat
  typeSize : Int
  typeModifier : Int
  format : Int
  deriving DecidableEq

abbrev PostgresRow := List (Option Bytes)

structure PostgresResultSet where
  fields : List RowDescriptionField := []
  rows : List PostgresRow := []
  commandTag : Bytes := []
  affectedRows : Nat := 0
  deriving DecidableEq

namespace PostgresResultSet

def fieldCount (result : PostgresResultSet) : Nat := result.fields.length

def addRow (result : PostgresResultSet) (row : PostgresRow) : PostgresResultSet :=
  { result with rows := result.rows ++ [row] }

end PostgresResultSet

def appendFields (result : PostgresResultSet) (fields : List RowDescriptionField) :
    PostgresResultSet :=
  { result with fields := result.fields ++ fields }

/-! ## Integers and strings -/

inductive ParseError
  | Incomplete | InvalidFormat | InvalidType | InvalidLength
  deriving DecidableEq

def readInt (width : Nat) (data : Bytes) : Nat := Lib.ofBe (data.take width)

def readSignedInt (width : Nat) (data : Bytes) : Int :=
  let value := readInt width data
  if value < 2 ^ (8 * width - 1) then value else value - 2 ^ (8 * width)

/-- A string that ends with a zero byte, and how many bytes it took. -/
def readCString (data : Bytes) : Except ParseError (Bytes × Nat) :=
  if 0 ∈ data then
    let str := data.takeWhile (· ≠ 0)
    .ok (str, str.length + 1)
  else
    .error .Incomplete

theorem readCString_le
    (h : readCString data = .ok (str, consumed)) : 0 < consumed ∧ consumed ≤ data.length := by
  rw [readCString] at h
  split at h
  · rename_i hmem
    cases h
    refine ⟨Nat.succ_pos _, Nat.succ_le_of_lt ?_⟩
    refine Nat.lt_of_le_of_ne (List.takeWhile_sublist _).length_le fun hall => ?_
    have hself := (List.takeWhile_sublist fun b : UInt8 => decide (b ≠ 0)).eq_of_length hall
    rw [← hself] at hmem
    have hzero := List.all_eq_true.1 List.all_takeWhile 0 hmem
    exact absurd hzero (by decide)
  cases h

/-! ## Messages -/

def kMessageHeaderSize : Nat := 5
def kLengthFieldSize : Nat := 4

def kMsgAuthentication : UInt8 := 0x52
def kMsgParameterStatus : UInt8 := 0x53
def kMsgBackendKeyData : UInt8 := 0x4B
def kMsgReadyForQuery : UInt8 := 0x5A
def kMsgRowDescription : UInt8 := 0x54
def kMsgDataRow : UInt8 := 0x44
def kMsgCommandComplete : UInt8 := 0x43
def kMsgEmptyQueryResponse : UInt8 := 0x49
def kMsgErrorResponse : UInt8 := 0x45
def kMsgNoticeResponse : UInt8 := 0x4E
def kMsgParseComplete : UInt8 := 0x31
def kMsgBindComplete : UInt8 := 0x32
def kMsgNoData : UInt8 := 0x6E
def kMsgPortalSuspended : UInt8 := 0x73
def kMsgCloseComplete : UInt8 := 0x33

/-- A message as the parser finds it. -/
structure MessageView where
  type : UInt8
  payload : Bytes
  deriving DecidableEq

structure MessageHeader where
  type : UInt8
  length : Nat

def parseHeader (data : Bytes) : Except ParseError MessageHeader :=
  match data with
  | type :: rest =>
    if data.length < kMessageHeaderSize then
      .error .Incomplete
    else
      let messageLength := readInt 4 rest
      if messageLength < kLengthFieldSize ∨ messageLength > 2 ^ 31 - 1 then
        .error .InvalidLength
      else
        .ok { type, length := messageLength }
  | [] => .error .Incomplete

/-- The message at the front of a string, and how many bytes it took. -/
def extractMessage (data : Bytes) : Except ParseError (MessageView × Nat) :=
  match parseHeader data with
  | .error error => .error error
  | .ok header =>
    let totalLength := 1 + header.length
    if data.length < totalLength then
      .error .Incomplete
    else
      .ok (⟨header.type, (data.drop kMessageHeaderSize).take (header.length - kLengthFieldSize)⟩,
        totalLength)

/-! ## Parsers -/

inductive AuthRequestKind
  | Ok | KerberosV5 | CleartextPassword | Md5Password | Gss | GssContinue | Sspi | Sasl
  | SaslContinue | SaslFinal
  deriving DecidableEq

def AuthRequestKind.ofInt : Nat → Option AuthRequestKind
  | 0 => some .Ok
  | 2 => some .KerberosV5
  | 3 => some .CleartextPassword
  | 5 => some .Md5Password
  | 7 => some .Gss
  | 8 => some .GssContinue
  | 9 => some .Sspi
  | 10 => some .Sasl
  | 11 => some .SaslContinue
  | 12 => some .SaslFinal
  | _ => none

structure AuthenticationRequest where
  kind : AuthRequestKind
  mechanisms : List Bytes := []
  data : Bytes := []

/-- The names of the mechanisms, up to an empty one that ends the payload. -/
def parseMechanisms (mechanisms : List Bytes) (data : Bytes) : Except ParseError (List Bytes) :=
  match _h : readCString data with
  | .error error => .error error
  | .ok (mechanism, consumed) =>
    if mechanism = [] then
      if mechanisms = [] ∨ data.drop consumed ≠ [] then .error .InvalidFormat
      else .ok mechanisms
    else
      parseMechanisms (mechanisms ++ [mechanism]) (data.drop consumed)
termination_by data.length
decreasing_by
  have hle := readCString_le _h
  rw [List.length_drop]
  omega

def parseAuthenticationRequest (data : Bytes) : Except ParseError AuthenticationRequest :=
  if data.length < 4 then
    .error .Incomplete
  else
    match AuthRequestKind.ofInt (readInt 4 data) with
    | none => .error .InvalidType
    | some .Sasl => do
      let mechanisms ← parseMechanisms [] (data.drop 4)
      return { kind := .Sasl, mechanisms }
    | some .SaslContinue => .ok { kind := .SaslContinue, data := data.drop 4 }
    | some .SaslFinal => .ok { kind := .SaslFinal, data := data.drop 4 }
    | some .GssContinue => .ok { kind := .GssContinue, data := data.drop 4 }
    | some .Md5Password =>
      if data.length ≠ 8 then .error .InvalidLength
      else .ok { kind := .Md5Password, data := (data.drop 4).take 4 }
    | some kind =>
      if data.length ≠ 4 then .error .InvalidLength
      else .ok { kind }

structure ErrorFields where
  severity : Bytes := []
  sqlState : Bytes := []
  message : Bytes := []
  detail : Bytes := []
  hint : Bytes := []
  position : Bytes := []
  internalPosition : Bytes := []
  internalQuery : Bytes := []
  «where» : Bytes := []
  schemaName : Bytes := []
  tableName : Bytes := []
  columnName : Bytes := []
  dataTypeName : Bytes := []
  constraintName : Bytes := []
  file : Bytes := []
  line : Bytes := []
  routine : Bytes := []
  deriving DecidableEq

/-- A field by its tag. The localized severity does not replace the other one. -/
def ErrorFields.set (fields : ErrorFields) (nonlocalized : Bool) (tag : UInt8) (value : Bytes) :
    ErrorFields :=
  if tag = 0x53 then if nonlocalized then fields else { fields with severity := value }
  else if tag = 0x56 then { fields with severity := value }
  else if tag = 0x43 then { fields with sqlState := value }
  else if tag = 0x4D then { fields with message := value }
  else if tag = 0x44 then { fields with detail := value }
  else if tag = 0x48 then { fields with hint := value }
  else if tag = 0x50 then { fields with position := value }
  else if tag = 0x70 then { fields with internalPosition := value }
  else if tag = 0x71 then { fields with internalQuery := value }
  else if tag = 0x57 then { fields with «where» := value }
  else if tag = 0x73 then { fields with schemaName := value }
  else if tag = 0x74 then { fields with tableName := value }
  else if tag = 0x63 then { fields with columnName := value }
  else if tag = 0x64 then { fields with dataTypeName := value }
  else if tag = 0x6E then { fields with constraintName := value }
  else if tag = 0x46 then { fields with file := value }
  else if tag = 0x4C then { fields with line := value }
  else if tag = 0x52 then { fields with routine := value }
  else fields

/-- The loop of `parseErrorResponse`. A tag that comes twice is an error. -/
def errorFields (fields : ErrorFields) (seen : List UInt8) (data : Bytes) :
    Except ParseError ErrorFields :=
  match data with
  | [] => .error .Incomplete
  | tag :: rest =>
    if tag = 0 then
      if rest ≠ [] then .error .InvalidFormat else .ok fields
    else if tag ∈ seen then
      .error .InvalidFormat
    else
      match _h : readCString rest with
      | .error error => .error error
      | .ok (value, consumed) =>
        errorFields (fields.set (0x56 ∈ seen) tag value) (tag :: seen) (rest.drop consumed)
termination_by data.length
decreasing_by
  rw [List.length_drop, List.length_cons]
  omega

def parseErrorResponse (data : Bytes) : Except ParseError ErrorFields := errorFields {} [] data

/-- The loop of `parseRowDescription`. -/
def rowFields : (count : Nat) → (data : Bytes) → Except ParseError (List RowDescriptionField × Bytes)
  | 0, data => .ok ([], data)
  | count + 1, data => do
    let (name, consumed) ← readCString data
    let data := data.drop consumed
    if data.length < 18 then
      .error .Incomplete
    else
      let field : RowDescriptionField :=
        { name
          tableOid := readInt 4 data
          columnIndex := readSignedInt 2 (data.drop 4)
          typeOid := readInt 4 (data.drop 6)
          typeSize := readSignedInt 2 (data.drop 10)
          typeModifier := readSignedInt 4 (data.drop 12)
          format := readSignedInt 2 (data.drop 16) }
      if field.format ≠ 0 ∧ field.format ≠ 1 then
        .error .InvalidFormat
      else
        let (fields, data) ← rowFields count (data.drop 18)
        return (field :: fields, data)

def parseRowDescription (data : Bytes) : Except ParseError (List RowDescriptionField) :=
  if data.length < 2 then
    .error .Incomplete
  else
    let count := readSignedInt 2 data
    if count < 0 then
      .error .InvalidLength
    else if count.toNat > (data.length - 2) / 19 then
      .error .Incomplete
    else do
      let (fields, data) ← rowFields count.toNat (data.drop 2)
      if data ≠ [] then .error .InvalidLength else return fields

/-- The loop of `parseDataRowView`. -/
def rowValues : (count : Nat) → (data : Bytes) → Except ParseError (PostgresRow × Bytes)
  | 0, data => .ok ([], data)
  | count + 1, data =>
    if data.length < 4 then
      .error .Incomplete
    else
      let valueLength := readSignedInt 4 data
      let data := data.drop 4
      if valueLength = -1 then do
        let (values, data) ← rowValues count data
        return (none :: values, data)
      else if valueLength < -1 then
        .error .InvalidLength
      else if valueLength.toNat > data.length then
        .error .Incomplete
      else do
        let (values, rest) ← rowValues count (data.drop valueLength.toNat)
        return (some (data.take valueLength.toNat) :: values, rest)

variable (data : Bytes)

def parseDataRow : Except ParseError PostgresRow :=
  if data.length < 2 then
    .error .Incomplete
  else
    let count := readSignedInt 2 data
    if count < 0 then
      .error .InvalidLength
    else if count.toNat > (data.length - 2) / 4 then
      .error .Incomplete
    else do
      let (values, data) ← rowValues count.toNat (data.drop 2)
      if data ≠ [] then .error .InvalidLength else return values

structure CommandCompleteInfo where
  tag : Bytes
  affectedRows : Nat := 0

/-- The last word of a tag, if it is a number. -/
def affectedRows (tag : Bytes) : Nat :=
  let numeric := (tag.reverse.takeWhile (· ≠ 0x20)).reverse
  match Lib.fromChars 10 (2 ^ 64 - 1) numeric with
  | (.ok affectedRows, []) => affectedRows
  | _ => 0

def parseCommandComplete : Except ParseError CommandCompleteInfo := do
  let (tag, consumed) ← readCString data
  if consumed ≠ data.length ∨ tag = [] then .error .InvalidFormat
  else return { tag, affectedRows := affectedRows tag }

def parseReadyForQuery : Except ParseError UInt8 :=
  match data with
  | [] => .error .Incomplete
  | [status] =>
    if status ≠ 0x49 ∧ status ≠ 0x54 ∧ status ≠ 0x45 then .error .InvalidFormat else .ok status
  | _ => .error .InvalidLength

def parseParameterStatus : Except ParseError (Bytes × Bytes) := do
  let (name, firstConsumed) ← readCString data
  let (value, secondConsumed) ← readCString (data.drop firstConsumed)
  if firstConsumed + secondConsumed ≠ data.length ∨ name = [] then .error .InvalidFormat
  else return (name, value)

/-- The process id and the secret key. -/
def parseBackendKeyData : Except ParseError (Nat × Nat) :=
  if data.length < 8 then .error .Incomplete
  else if data.length ≠ 8 then .error .InvalidLength
  else .ok (readInt 4 data, readInt 4 (data.drop 4))

def parseBindComplete : Except ParseError Unit :=
  if data ≠ [] then .error .InvalidLength else .ok ()

variable {data}

/-! ## Errors -/

def protocolError (message : String) : PostgresError :=
  { type := .POSTGRES_ERROR_PROTOCOL, extraMessage := ascii message }

def serverError (fields : ErrorFields) (type : PostgresErrorType) : PostgresError :=
  { type
    extraMessage := fields.message ++
      (if fields.detail ≠ [] then ascii "; detail: " ++ fields.detail else []) ++
      (if fields.hint ≠ [] then ascii "; hint: " ++ fields.hint else [])
    sqlState := fields.sqlState
    severity := fields.severity }

end Galay.Postgres
