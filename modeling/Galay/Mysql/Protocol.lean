import Galay.Lib.LittleEndian

/-!
# The MySQL client protocol

The packet parsers of `mysql_protocol.cc` and the values they fill. A parser is given a string; one
that reads a part of it returns how much it read.
-/

namespace Galay.Mysql

/-! ## Values -/

inductive MysqlErrorType
  | MYSQL_ERROR_QUERY | MYSQL_ERROR_PROTOCOL | MYSQL_ERROR_RECV | MYSQL_ERROR_SERVER
  | MYSQL_ERROR_INTERNAL | MYSQL_ERROR_INVALID_PARAM
  deriving DecidableEq

structure MysqlError where
  type : MysqlErrorType
  serverErrno : Nat := 0
  extraMsg : Bytes
  deriving DecidableEq

structure MysqlField where
  name : Bytes
  type : UInt8
  flags : Nat
  columnLength : Nat
  decimals : UInt8
  catalog : Bytes
  schema : Bytes
  table : Bytes
  orgTable : Bytes
  orgName : Bytes
  characterSet : Nat
  deriving DecidableEq

abbrev MysqlRow := List (Option Bytes)

structure MysqlResultSet where
  fields : List MysqlField := []
  rows : List MysqlRow := []
  info : Bytes := []
  affectedRows : Nat := 0
  lastInsertId : Nat := 0
  warnings : Nat := 0
  statusFlags : Nat := 0
  deriving DecidableEq

namespace MysqlResultSet

def addField (rs : MysqlResultSet) (field : MysqlField) : MysqlResultSet :=
  { rs with fields := rs.fields ++ [field] }

def addRow (rs : MysqlResultSet) (row : MysqlRow) : MysqlResultSet :=
  { rs with rows := rs.rows ++ [row] }

end MysqlResultSet

/-! ## Integers and strings -/

inductive ParseError
  | Incomplete | InvalidFormat | BufferOverflow
  deriving DecidableEq

/-- A little-endian integer of `width` bytes at a position that is known to hold it. -/
def readUint (width : Nat) (data : Bytes) : Nat := Lib.ofLe (data.take width)

def readLenEncInt (data : Bytes) : Except ParseError (Nat × Nat) :=
  match data with
  | [] => .error .Incomplete
  | first :: rest =>
    if first < 0xFB then .ok (first.toNat, 1)
    else if first = 0xFB then .ok (0xFB, 1)
    else if first = 0xFC then
      if data.length < 3 then .error .Incomplete else .ok (readUint 2 rest, 3)
    else if first = 0xFD then
      if data.length < 4 then .error .Incomplete else .ok (readUint 3 rest, 4)
    else if first = 0xFE then
      if data.length < 9 then .error .Incomplete else .ok (readUint 8 rest, 9)
    else .error .InvalidFormat

def sizeMax : Nat := 2 ^ 64 - 1

def readLenEncStringView (data : Bytes) : Except ParseError (Bytes × Nat) :=
  match readLenEncInt data with
  | .error error => .error error
  | .ok (strSize, intConsumed) =>
    if strSize > sizeMax - intConsumed then .error .BufferOverflow
    else if strSize > data.length - intConsumed then .error .Incomplete
    else .ok ((data.drop intConsumed).take strSize, intConsumed + strSize)

def readLenEncString (data : Bytes) : Except ParseError (Bytes × Nat) :=
  readLenEncStringView data

/-! ## Packets -/

def MYSQL_PACKET_HEADER_SIZE : Nat := 4

def MYSQL_MAX_PACKET_SIZE : Nat := 0xFFFFFF

structure Packet where
  sequenceId : UInt8
  payload : Bytes
  deriving DecidableEq

variable (data : Bytes)

/-- The packet at the front of a string, and how many bytes it took. -/
def extractPacket : Except ParseError (Packet × Nat) :=
  if h : data.length < MYSQL_PACKET_HEADER_SIZE then
    .error .Incomplete
  else
    have : 3 < data.length := Nat.le_of_not_lt h
    let length := readUint 3 data
    let total := MYSQL_PACKET_HEADER_SIZE + length
    if data.length < total then
      .error .Incomplete
    else
      .ok (⟨data[3], (data.drop MYSQL_PACKET_HEADER_SIZE).take length⟩, total)

def CLIENT_CONNECT_WITH_DB : Nat := 0x00000008
def CLIENT_PROTOCOL_41 : Nat := 0x00000200
def CLIENT_TRANSACTIONS : Nat := 0x00002000
def CLIENT_SECURE_CONNECTION : Nat := 0x00008000
def CLIENT_MULTI_STATEMENTS : Nat := 0x00010000
def CLIENT_MULTI_RESULTS : Nat := 0x00020000
def CLIENT_PS_MULTI_RESULTS : Nat := 0x00040000
def CLIENT_PLUGIN_AUTH : Nat := 0x00080000
def CLIENT_PLUGIN_AUTH_LENENC_CLIENT_DATA : Nat := 0x00200000
def CLIENT_DEPRECATE_EOF : Nat := 0x01000000

def SERVER_MORE_RESULTS_EXISTS : Nat := 0x0008

structure OkPacket where
  info : Bytes := []
  affectedRows : Nat
  lastInsertId : Nat
  statusFlags : Nat := 0
  warnings : Nat := 0

structure ErrPacket where
  sqlState : Bytes := []
  errorMessage : Bytes := []
  errorCode : Nat

structure EofPacket where
  warnings : Nat := 0
  statusFlags : Nat := 0

def parseOk (capabilities : Nat) : Except ParseError OkPacket :=
  if data.length < 1 then
    .error .Incomplete
  else do
    let pos := 1
    let (affectedRows, consumed) ← readLenEncInt (data.drop pos)
    let pos := pos + consumed
    let (lastInsertId, consumed) ← readLenEncInt (data.drop pos)
    let pos := pos + consumed
    if capabilities &&& CLIENT_PROTOCOL_41 ≠ 0 then
      if pos + 4 > data.length then
        .error .Incomplete
      else
        return { affectedRows, lastInsertId
                 statusFlags := readUint 2 (data.drop pos)
                 warnings := readUint 2 (data.drop (pos + 2))
                 info := data.drop (pos + 4) }
    else
      return { affectedRows, lastInsertId, info := data.drop pos }

def parseErr (capabilities : Nat) : Except ParseError ErrPacket :=
  if data.length < 3 then
    .error .Incomplete
  else
    let errorCode := readUint 2 (data.drop 1)
    let pos := 3
    if capabilities &&& CLIENT_PROTOCOL_41 ≠ 0 then
      if pos + 6 > data.length then
        .error .Incomplete
      else
        .ok { errorCode
              sqlState := (data.drop (pos + 1)).take 5
              errorMessage := data.drop (pos + 6) }
    else
      .ok { errorCode, errorMessage := data.drop pos }

def parseEof : Except ParseError EofPacket :=
  if data.length < 1 then
    .error .Incomplete
  else if 1 + 4 ≤ data.length then
    .ok { warnings := readUint 2 (data.drop 1), statusFlags := readUint 2 (data.drop 3) }
  else
    .ok {}

/-- `parseColumnDefinition`, with the field the callers make of it. -/
theorem type_lt {data : Bytes} (h : ¬ pos + 12 > data.length) : pos + 6 < data.length := by
  omega

theorem decimals_lt {data : Bytes} (h : ¬ pos + 12 > data.length) : pos + 9 < data.length := by
  omega

def parseColumnDefinition : Except ParseError MysqlField := do
  let pos := 0
  let (catalog, consumed) ← readLenEncString (data.drop pos)
  let pos := pos + consumed
  let (schema, consumed) ← readLenEncString (data.drop pos)
  let pos := pos + consumed
  let (table, consumed) ← readLenEncString (data.drop pos)
  let pos := pos + consumed
  let (orgTable, consumed) ← readLenEncString (data.drop pos)
  let pos := pos + consumed
  let (name, consumed) ← readLenEncString (data.drop pos)
  let pos := pos + consumed
  let (orgName, consumed) ← readLenEncString (data.drop pos)
  let pos := pos + consumed
  if pos + 1 > data.length then
    .error .Incomplete
  else
    let pos := pos + 1
    if h : pos + 12 > data.length then
      .error .Incomplete
    else
      have htype := type_lt h
      have hdecimals := decimals_lt h
      return { catalog, schema, table, orgTable, name, orgName
               characterSet := readUint 2 (data.drop pos)
               columnLength := readUint 4 (data.drop (pos + 2))
               type := data[pos + 6]
               flags := readUint 2 (data.drop (pos + 7))
               decimals := data[pos + 9] }

/-- The loop of `parseTextRow` from a position, for the columns that are left. -/
def textColumns (data : Bytes) : (columns pos : Nat) → Except ParseError MysqlRow
  | 0, _ => .ok []
  | columns + 1, pos =>
    if h : pos ≥ data.length then
      .error .Incomplete
    else if data[pos] = 0xFB then
      match textColumns data columns (pos + 1) with
      | .error error => .error error
      | .ok row => .ok (none :: row)
    else
      match readLenEncStringView (data.drop pos) with
      | .error error => .error error
      | .ok (view, consumed) =>
        match textColumns data columns (pos + consumed) with
        | .error error => .error error
        | .ok row => .ok (some view :: row)

def parseTextRow (columnCount : Nat) : Except ParseError MysqlRow :=
  textColumns data columnCount 0

end Galay.Mysql
