import Galay.Mysql.Protocol

/-!
# The blocking MySQL client

`mysql_client.cc` after the handshake. A call reads packets from a connection, through a ring
buffer that the calls share; what it has not read is there for the next call.
-/

namespace Galay.Mysql

/-- How a function that reads from `σ` ends. A read that nothing comes for does not return. -/
inductive Outcome (σ α : Type)
  | done (value : α) (rest : σ)
  | failed (error : MysqlError) (rest : σ)
  | waits (rest : σ)
  deriving DecidableEq

namespace Outcome

variable {σ α β : Type}

def bind (outcome : Outcome σ α) (next : α → σ → Outcome σ β) : Outcome σ β :=
  match outcome with
  | .done value rest => next value rest
  | .failed error rest => .failed error rest
  | .waits rest => .waits rest

/-- What is left to read. -/
def rest : Outcome σ α → σ
  | .done _ rest => rest
  | .failed _ rest => rest
  | .waits rest => rest

end Outcome

/-! ## The connection -/

/-- The ring buffer and the socket behind it: what the server sends, and how many bytes each read
of the socket would like to take. -/
structure Connection where
  capacity : Nat
  buffer : Bytes
  incoming : Bytes
  reads : Nat → Nat

namespace Connection

variable (connection : Connection)

/-- What the server has sent and no packet was made of. -/
def unread : Bytes := connection.buffer ++ connection.incoming

/-- How many bytes the next read brings. -/
def readSize : Nat :=
  min (max 1 (connection.reads 0))
    (min (connection.capacity - connection.buffer.length) connection.incoming.length)

/-- A read of the socket into the ring buffer. -/
def read : Connection :=
  { connection with
    buffer := connection.buffer ++ connection.incoming.take connection.readSize
    incoming := connection.incoming.drop connection.readSize
    reads := fun k => connection.reads (k + 1) }

def recvIntoRingBuffer : Outcome Connection Unit :=
  if connection.buffer.length ≥ connection.capacity then
    .failed ⟨.MYSQL_ERROR_RECV, 0,
      ascii "Ring buffer exhausted before parsing complete MySQL responses"⟩ connection
  else if connection.incoming = [] then
    .waits connection
  else
    .done () connection.read

/-- The packet at the front of the ring buffer, taken out of it. -/
def tryExtractPacket : Outcome Connection (Option Packet) :=
  match extractPacket connection.buffer with
  | .error .Incomplete => .done none connection
  | .error _ => .failed ⟨.MYSQL_ERROR_PROTOCOL, 0, ascii "Failed to parse MySQL packet"⟩ connection
  | .ok (packet, consumed) =>
    .done (some packet) { connection with buffer := connection.buffer.drop consumed }

theorem length_incoming_read {connection : Connection} (hincoming : connection.incoming ≠ [])
    (hspace : connection.buffer.length < connection.capacity) :
    connection.read.incoming.length < connection.incoming.length := by
  have hpos := List.length_pos_of_ne_nil hincoming
  rw [read, List.length_drop, readSize]
  omega

theorem length_incoming_of_recv {connection : Connection}
    (h : connection.recvIntoRingBuffer = .done () next) :
    next.incoming.length < connection.incoming.length := by
  rw [recvIntoRingBuffer] at h
  split at h
  · cases h
  split at h
  · cases h
  rename_i hspace hincoming
  cases h
  exact length_incoming_read hincoming (Nat.lt_of_not_le hspace)

def recvPacket (connection : Connection) : Outcome Connection Packet :=
  match connection.tryExtractPacket with
  | .failed error rest => .failed error rest
  | .waits rest => .waits rest
  | .done (some packet) rest => .done packet rest
  | .done none _ =>
    match _h : connection.recvIntoRingBuffer with
    | .failed error rest => .failed error rest
    | .waits rest => .waits rest
    | .done () next => recvPacket next
termination_by connection.incoming.length
decreasing_by exact length_incoming_of_recv _h

end Connection

/-! ## Results -/

/-- Where packets come from: each of them takes something of what is to come. -/
structure Source (σ : Type) where
  recvPacket : σ → Outcome σ Packet
  size : σ → Nat
  size_lt : ∀ {s next : σ} {packet : Packet}, recvPacket s = .done packet next →
    size next < size s

def protocolError (message : String) : MysqlError := ⟨.MYSQL_ERROR_PROTOCOL, 0, ascii message⟩

/-- The error an ERR packet stands for, or the one of a packet that is not a proper one. -/
def serverError (payload : Bytes) (capabilities : Nat) (message : String) : MysqlError :=
  match parseErr payload capabilities with
  | .ok err => ⟨.MYSQL_ERROR_SERVER, err.errorCode, err.errorMessage⟩
  | .error _ => ⟨.MYSQL_ERROR_QUERY, 0, ascii message⟩

/-- The result set of an OK packet. -/
def okResult (ok : OkPacket) : MysqlResultSet :=
  { affectedRows := ok.affectedRows, lastInsertId := ok.lastInsertId, warnings := ok.warnings
    statusFlags := ok.statusFlags, info := ok.info }

/-- The result set as the packet after the last row leaves it. -/
def endResult (rs : MysqlResultSet) (payload : Bytes) (capabilities : Nat) : MysqlResultSet :=
  if capabilities &&& CLIENT_DEPRECATE_EOF ≠ 0 then
    match parseOk payload capabilities with
    | .ok ok => { rs with warnings := ok.warnings, statusFlags := ok.statusFlags }
    | .error _ => rs
  else
    match parseEof payload with
    | .ok eof => { rs with warnings := eof.warnings, statusFlags := eof.statusFlags }
    | .error _ => rs

section Receive

variable {σ : Type} (source : Source σ) (capabilities : Nat)

/-- The loop over the column definitions. -/
def receiveColumns : Nat → MysqlResultSet → σ → Outcome σ MysqlResultSet
  | 0, rs, s => .done rs s
  | columns + 1, rs, s =>
    (source.recvPacket s).bind fun packet s =>
      match parseColumnDefinition packet.payload with
      | .error _ => .failed (protocolError "Failed to parse column definition") s
      | .ok field => receiveColumns columns (rs.addField field) s

/-- The loop over the rows. -/
def receiveRows (columnCount : Nat) (rs : MysqlResultSet) (s : σ) : Outcome σ MysqlResultSet :=
  match _h : source.recvPacket s with
  | .failed error rest => .failed error rest
  | .waits rest => .waits rest
  | .done packet next =>
    match packet.payload with
    | [] => .failed (protocolError "Empty row payload") next
    | first :: _ =>
      if first = 0xFE ∧ packet.payload.length < 0xFFFFFF then
        .done (endResult rs packet.payload capabilities) next
      else if first = 0xFF then
        .failed (serverError packet.payload capabilities "Error during row fetch") next
      else
        match parseTextRow packet.payload columnCount with
        | .error _ => .failed (protocolError "Failed to parse text row") next
        | .ok row => receiveRows columnCount (rs.addRow row) next
termination_by source.size s
decreasing_by exact source.size_lt _h

def receiveResultSet (s : σ) : Outcome σ MysqlResultSet :=
  (source.recvPacket s).bind fun packet s =>
    match packet.payload with
    | [] => .failed (protocolError "Empty server payload") s
    | first :: _ =>
      if first = 0xFF then
        .failed (serverError packet.payload capabilities "Query error") s
      else if first = 0x00 then
        match parseOk packet.payload capabilities with
        | .error _ => .failed (protocolError "Failed to parse OK packet") s
        | .ok ok => .done (okResult ok) s
      else
        match readLenEncInt packet.payload with
        | .error _ => .failed (protocolError "Failed to parse column count") s
        | .ok (colCount, _) =>
          (receiveColumns source colCount {} s).bind fun rs s =>
            if capabilities &&& CLIENT_DEPRECATE_EOF ≠ 0 then
              receiveRows source capabilities colCount rs s
            else
              (source.recvPacket s).bind fun _ s => receiveRows source capabilities colCount rs s

/-- The loop of `batch` over the responses. -/
def receiveResultSets : Nat → List MysqlResultSet → σ → Outcome σ (List MysqlResultSet)
  | 0, results, s => .done results s
  | commands + 1, results, s =>
    (receiveResultSet source capabilities s).bind fun one s =>
      receiveResultSets commands (results ++ [one]) s

end Receive

namespace Connection

theorem extractPacket_le
    (h : extractPacket data = .ok (packet, consumed)) : 0 < consumed ∧ consumed ≤ data.length := by
  rw [extractPacket] at h
  split at h
  · cases h
  simp only at h
  split at h
  · cases h
  rename_i hfits
  cases h
  exact ⟨Nat.add_pos_left (by decide) _, Nat.le_of_not_lt hfits⟩

theorem length_unread_of_recvPacket {connection : Connection}
    (h : connection.recvPacket = .done packet next) :
    next.unread.length < connection.unread.length := by
  fun_induction recvPacket connection with
  | case1 | case2 | case4 | case5 => cases h
  | case3 connection packet' rest htry =>
    cases h
    rw [tryExtractPacket] at htry
    split at htry
    · cases htry
    · cases htry
    rename_i consumed hextract
    cases htry
    have hlen := extractPacket_le hextract
    simp only [unread, List.length_append, List.length_drop]
    omega
  | case6 connection _ _ read hread ih =>
  refine Nat.lt_of_lt_of_le (ih h) ?_
  rw [recvIntoRingBuffer] at hread
  split at hread
  · cases hread
  split at hread
  · cases hread
  cases hread
  rw [unread, unread, Connection.read]
  simp only [List.append_assoc, List.take_append_drop]
  exact Nat.le_refl _

/-- The packets of a connection. -/
def source : Source Connection where
  recvPacket := recvPacket
  size connection := connection.unread.length
  size_lt := length_unread_of_recvPacket

end Connection

/-! ## Calls -/

/-- What the client asks the server for, of what the server offers. -/
def negotiate (withDatabase : Bool) (serverCapabilities : Nat) : Nat :=
  (CLIENT_PROTOCOL_41 ||| CLIENT_SECURE_CONNECTION ||| CLIENT_PLUGIN_AUTH ||| CLIENT_TRANSACTIONS
    ||| CLIENT_MULTI_STATEMENTS ||| CLIENT_MULTI_RESULTS ||| CLIENT_PS_MULTI_RESULTS
    ||| CLIENT_PLUGIN_AUTH_LENENC_CLIENT_DATA
    ||| if withDatabase then CLIENT_CONNECT_WITH_DB else 0) &&& serverCapabilities

def COM_QUERY : UInt8 := 0x03

/-- The packet of a command, or nothing if it does not fit one packet. -/
def encodeSimpleCommand (cmd : UInt8) (payload : Bytes) (sequenceId : UInt8) : Bytes :=
  if payload.length > MYSQL_MAX_PACKET_SIZE - 1 then
    []
  else
    Lib.toLe 3 (1 + payload.length) ++ [sequenceId, cmd] ++ payload

def encodeQuery (sql : Bytes) (sequenceId : UInt8) : Bytes :=
  encodeSimpleCommand COM_QUERY sql sequenceId

structure MysqlClient where
  connection : Connection
  serverCapabilities : Nat

namespace MysqlClient

def kRecvBufferCapacity : Nat := 256 * 1024

/-- A client that has just been authenticated. -/
def connected (reads : Nat → Nat) (withDatabase : Bool) (serverCapabilities : Nat) : MysqlClient where
  connection := { capacity := kRecvBufferCapacity, buffer := [], incoming := [], reads }
  serverCapabilities := negotiate withDatabase serverCapabilities

variable (client : MysqlClient)

/-- The server's answer to what was sent comes behind what it sent before. -/
def sent (answer : Bytes) : Connection :=
  { client.connection with incoming := client.connection.incoming ++ answer }

def query (client : MysqlClient) (sql answer : Bytes) : Outcome Connection MysqlResultSet :=
  let cmd := encodeQuery sql 0
  if cmd = [] then
    .failed ⟨.MYSQL_ERROR_INVALID_PARAM, 0, ascii "MySQL query exceeds single-packet limit"⟩
      client.connection
  else
    receiveResultSet Connection.source client.serverCapabilities (client.sent answer)

/-- The commands are the packets of a builder, each with the answer it gets if it is sent. -/
def batch (commands : List (Bytes × Bytes)) :
    Outcome Connection (List MysqlResultSet) :=
  if commands = [] then
    .done [] client.connection
  else if ∃ command ∈ commands, command.1 = [] then
    .failed ⟨.MYSQL_ERROR_INVALID_PARAM, 0, ascii "Batch command encoded payload is empty"⟩
      client.connection
  else
    receiveResultSets Connection.source client.serverCapabilities commands.length []
      (client.sent (commands.flatMap (·.2)))

def pipeline (sqls : List (Bytes × Bytes)) :
    Outcome Connection (List MysqlResultSet) :=
  if sqls = [] then
    .done [] client.connection
  else
    client.batch (sqls.map fun (sql, answer) => (encodeQuery sql 0, answer))

end MysqlClient

end Galay.Mysql
