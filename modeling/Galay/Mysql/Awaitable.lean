import Galay.Mysql.Client

/-!
# The awaitable MySQL client

The machines of `awaitable.inl` that receive the results of a query, of a statement and of a
pipeline. They are one machine with different texts: it parses what is in the ring buffer packet by
packet, and is resumed at any packet when more has been read.
-/

namespace Galay.Mysql

/-- What the machines of the three awaitables have of their own. -/
structure Awaitable where
  packetFailed : String
  queryFailed : String
  columnFailed : String
  rowFailed : String
  fetchFailed : String
  noSpace : String
  invalidState : String
  keepsInfo : Bool

def MysqlQueryAwaitable : Awaitable where
  packetFailed := "Parse query packet failed"
  queryFailed := "Query failed"
  columnFailed := "Failed to parse column definition"
  rowFailed := "Failed to parse text row"
  fetchFailed := "Error during row fetch"
  noSpace := "No writable ring buffer space"
  invalidState := "Invalid query parser state"
  keepsInfo := true

def MysqlStmtExecuteAwaitable : Awaitable where
  packetFailed := "Parse stmt-execute packet failed"
  queryFailed := "Execute failed"
  columnFailed := "Parse column definition failed"
  rowFailed := "Parse row failed"
  fetchFailed := "Error during row fetch"
  noSpace := "No writable ring buffer space"
  invalidState := "Invalid stmt-execute parser state"
  keepsInfo := false

def MysqlPipelineAwaitable : Awaitable where
  packetFailed := "Parse pipeline packet failed"
  queryFailed := "Pipeline query failed"
  columnFailed := "Failed to parse column definition"
  rowFailed := "Failed to parse text row"
  fetchFailed := "Pipeline row fetch failed"
  noSpace := "No writable ring buffer space while receiving pipeline response"
  invalidState := "Invalid pipeline parser state"
  keepsInfo := true

inductive Phase
  | ReceivingHeader | ReceivingColumns | ReceivingColumnEof | ReceivingRows | Done
  deriving DecidableEq

/-- The receiving part of a machine's state. A query and a statement expect one result. -/
structure Machine where
  phase : Phase := .ReceivingHeader
  currentResult : MysqlResultSet := {}
  columnCount : Nat := 0
  columnsReceived : Nat := 0
  results : List MysqlResultSet := []

/-- The machine when its command has been sent. Without commands there is nothing to wait for. -/
def Machine.start (expectedResults : Nat) : Machine where
  phase := if expectedResults = 0 then .Done else .ReceivingHeader

/-- What one packet does to a machine. `reserveFields` throws when no vector can be so long. -/
inductive Step
  | next (machine : Machine)
  | failed (error : MysqlError)
  | thrown

namespace Awaitable

variable (awaitable : Awaitable) (expectedResults capabilities maxFields : Nat)

variable (machine : Machine)

/-- The end of a result: the next one begins, or the machine is done. -/
def finalizeCurrentResult (result : MysqlResultSet) : Machine :=
  if (machine.results ++ [result]).length ≥ expectedResults then
    { machine with currentResult := result, results := machine.results ++ [result], phase := .Done }
  else
    { results := machine.results ++ [result] }

variable (payload : Bytes)

def stepHeader (firstByte : UInt8) : Step :=
  if firstByte = 0xFF then
    .failed (serverError payload capabilities awaitable.queryFailed)
  else if firstByte = 0x00 then
    match parseOk payload capabilities with
    | .error _ => .failed (protocolError "Failed to parse OK packet")
    | .ok ok =>
      .next (finalizeCurrentResult expectedResults machine { machine.currentResult with
          affectedRows := ok.affectedRows, lastInsertId := ok.lastInsertId
          warnings := ok.warnings, statusFlags := ok.statusFlags
          info := if awaitable.keepsInfo then ok.info else machine.currentResult.info })
  else
    match readLenEncInt payload with
    | .error _ => .failed (protocolError "Failed to parse column count")
    | .ok (columnCount, _) =>
      if columnCount > maxFields then .thrown
      else .next { machine with columnCount, columnsReceived := 0, phase := .ReceivingColumns }

def stepColumn : Step :=
  match parseColumnDefinition payload with
  | .error _ => .failed (protocolError awaitable.columnFailed)
  | .ok field =>
    let machine := { machine with
      currentResult := machine.currentResult.addField field
      columnsReceived := machine.columnsReceived + 1 }
    if machine.columnsReceived ≥ machine.columnCount then
      .next { machine with
        phase :=
          if capabilities &&& CLIENT_DEPRECATE_EOF ≠ 0 then .ReceivingRows
          else .ReceivingColumnEof }
    else
      .next machine

def stepRow (firstByte : UInt8) : Step :=
  if firstByte = 0xFE ∧ payload.length < 0xFFFFFF then
    .next (finalizeCurrentResult expectedResults machine
      (endResult machine.currentResult payload capabilities))
  else if firstByte = 0xFF then
    .failed (serverError payload capabilities awaitable.fetchFailed)
  else
    match parseTextRow payload machine.columnCount with
    | .error _ => .failed (protocolError awaitable.rowFailed)
    | .ok row => .next { machine with currentResult := machine.currentResult.addRow row }

/-- The body of the loop of `tryParseFromRingBuffer`. -/
def step (firstByte : UInt8) : Step :=
  match machine.phase with
  | .ReceivingHeader =>
    awaitable.stepHeader expectedResults capabilities maxFields machine payload firstByte
  | .ReceivingColumns => awaitable.stepColumn capabilities machine payload
  | .ReceivingColumnEof => .next { machine with phase := .ReceivingRows }
  | .ReceivingRows => awaitable.stepRow expectedResults capabilities machine payload firstByte
  | .Done => .failed ⟨.MYSQL_ERROR_INTERNAL, 0, ascii awaitable.invalidState⟩

variable {payload}

variable {machine}

/-- How an attempt to parse the ring buffer ends, and what it leaves there. -/
inductive Parsed
  | complete (machine : Machine) (buffer : Bytes)
  | more (machine : Machine) (buffer : Bytes)
  | failed (error : MysqlError) (buffer : Bytes)
  | thrown (buffer : Bytes)

/-- The byte the machine takes for the first of a payload: what stands behind the header. When that
is the end of what was read, it is what the memory holds there. -/
def firstByte (beyond : Bytes → UInt8) (buffer : Bytes) : UInt8 :=
  (buffer.drop MYSQL_PACKET_HEADER_SIZE).headD (beyond buffer)

variable (beyond : Bytes → UInt8)

def tryParseFromRingBuffer (machine : Machine) (buffer : Bytes) : Parsed :=
  if machine.results.length ≥ expectedResults then
    .complete machine buffer
  else
    match _h : extractPacket buffer with
    | .error .Incomplete => .more machine buffer
    | .error _ => .failed (protocolError awaitable.packetFailed) buffer
    | .ok (packet, consumed) =>
      match awaitable.step expectedResults capabilities maxFields machine packet.payload
          (firstByte beyond buffer) with
      | .next machine => tryParseFromRingBuffer machine (buffer.drop consumed)
      | .failed error => .failed error (buffer.drop consumed)
      | .thrown => .thrown buffer
termination_by buffer.length
decreasing_by
  have hle := Connection.extractPacket_le _h
  rw [List.length_drop]
  omega

/-- What a call to an awaitable client comes to. -/
inductive Finish
  | results (results : List MysqlResultSet)
  | thrown

/-- The machine after its command has been sent: it parses and reads in turn. -/
def run (machine : Machine) (connection : Connection) : Outcome Connection Finish :=
  match awaitable.tryParseFromRingBuffer expectedResults capabilities maxFields beyond machine
      connection.buffer with
  | .complete machine buffer => .done (.results machine.results) { connection with buffer }
  | .failed error buffer => .failed error { connection with buffer }
  | .thrown buffer => .done .thrown { connection with buffer }
  | .more machine buffer =>
    let connection' := { connection with buffer }
    if _hspace : connection'.buffer.length ≥ connection'.capacity then
      .failed ⟨.MYSQL_ERROR_RECV, 0, ascii awaitable.noSpace⟩ connection'
    else if _hincoming : connection'.incoming = [] then
      .waits connection'
    else
      run machine connection'.read
termination_by connection.incoming.length
decreasing_by
  exact Connection.length_incoming_read _hincoming (Nat.lt_of_not_le _hspace)

end Awaitable

end Galay.Mysql
