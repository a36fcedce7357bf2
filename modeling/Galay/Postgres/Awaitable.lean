import Galay.Postgres.Protocol

/-!
# The awaitable PostgreSQL client

The loops of `awaitable.inl` over the response to a query, to an execution and to a pipeline. They are
written out three times in the source and differ in the messages they know; a query and an execution
wait for one ReadyForQuery, a pipeline for as many as it has boundaries.
-/

namespace Galay.Postgres

open List

/-- What the loops have of their own: the messages that they pass over, whether they look into a
BindComplete, and their errors. -/
structure Loop where
  skipped : List UInt8
  checksBind : Bool
  errorType : PostgresErrorType
  unexpected : String

def PostgresQueryAwaitable : Loop where
  skipped := [kMsgEmptyQueryResponse, kMsgNoticeResponse]
  checksBind := false
  errorType := .POSTGRES_ERROR_SERVER
  unexpected := "Unexpected PostgreSQL simple-query response message"

def PostgresExecuteAwaitable : Loop where
  skipped := [kMsgNoData, kMsgPortalSuspended, kMsgNoticeResponse]
  checksBind := true
  errorType := .POSTGRES_ERROR_PREPARED_STMT
  unexpected := "Unexpected PostgreSQL execute response message"

def PostgresPipelineAwaitable : Loop where
  skipped := [kMsgParseComplete, kMsgBindComplete, kMsgNoData, kMsgPortalSuspended,
    kMsgCloseComplete, kMsgEmptyQueryResponse, kMsgNoticeResponse]
  checksBind := false
  errorType := .POSTGRES_ERROR_SERVER
  unexpected := "Unexpected PostgreSQL pipeline response message"

/-- What the loops change of the client. -/
structure Client where
  serverParameters : List (Bytes × Bytes) := []
  transactionStatus : UInt8 := 0x49

def Client.setServerParameter (client : Client) (name value : Bytes) : Client :=
  { client with
    serverParameters := (name, value) :: client.serverParameters.filter (·.1 ≠ name) }

/-- The state of a loop. The results are those that a ReadyForQuery has ended. -/
structure Machine where
  client : Client := {}
  current : PostgresResultSet := {}
  error : Option PostgresError := none
  results : List PostgresResultSet := []

/-- What a call comes to. -/
structure Response where
  client : Client
  result : Except PostgresError (List PostgresResultSet)

namespace Loop

variable (loop : Loop) (expectedReady : Nat)

def onReadyForQuery (machine : Machine) (status : UInt8) :
    Lib.Move Machine Response PostgresError :=
  let client := { machine.client with transactionStatus := status }
  let results := machine.results ++ [machine.current]
  if results.length ≥ expectedReady then
    match machine.error with
    | some error => .done ⟨client, .error error⟩
    | none => .done ⟨client, .ok results⟩
  else
    .next { machine with client, results, current := {} }

/-- The body of the loops. -/
def step (machine : Machine) (message : MessageView) : Lib.Move Machine Response PostgresError :=
  if message.type = kMsgRowDescription then
    match parseRowDescription message.payload with
    | .error _ => .failed (protocolError "Malformed RowDescription")
    | .ok fields => .next { machine with current := appendFields machine.current fields }
  else if message.type = kMsgDataRow then
    match parseDataRow message.payload with
    | .error _ => .failed (protocolError "Malformed DataRow")
    | .ok row =>
      if machine.current.fieldCount ≠ 0 ∧ row.length ≠ machine.current.fieldCount then
        .failed (protocolError "Malformed DataRow")
      else
        .next { machine with current := machine.current.addRow row }
  else if message.type = kMsgCommandComplete then
    match parseCommandComplete message.payload with
    | .error _ => .failed (protocolError "Malformed CommandComplete")
    | .ok complete =>
      .next { machine with
        current := { machine.current with
          commandTag := complete.tag, affectedRows := complete.affectedRows } }
  else if loop.checksBind ∧ message.type = kMsgBindComplete then
    match parseBindComplete message.payload with
    | .error _ => .failed (protocolError "Malformed BindComplete")
    | .ok () => .next machine
  else if message.type ∈ loop.skipped then
    .next machine
  else if message.type = kMsgParameterStatus then
    match parseParameterStatus message.payload with
    | .error _ => .failed (protocolError "Malformed ParameterStatus")
    | .ok (name, value) =>
      .next { machine with client := machine.client.setServerParameter name value }
  else if message.type = kMsgErrorResponse then
    match parseErrorResponse message.payload with
    | .error _ => .failed (protocolError "Malformed ErrorResponse")
    | .ok fields =>
      .next { machine with
        error := machine.error.or (some (serverError fields loop.errorType)) }
  else if message.type = kMsgReadyForQuery then
    match parseReadyForQuery message.payload with
    | .error _ => .failed (protocolError "Malformed ReadyForQuery")
    | .ok status => onReadyForQuery expectedReady machine status
  else
    .failed (protocolError loop.unexpected)

end Loop

/-! ## Messages in the ring buffer -/

namespace MessageView

variable (message : MessageView)

def wire : Bytes :=
  message.type :: (Lib.toBe 4 (kLengthFieldSize + message.payload.length) ++ message.payload)

theorem length_wire :
    message.wire.length = kMessageHeaderSize + message.payload.length := by
  rw [wire, length_cons, length_append, Lib.length_toBe, kMessageHeaderSize]
  omega

/-- A message whose length can be written. -/
def Valid : Prop :=
  kLengthFieldSize + message.payload.length ≤ 2 ^ 31 - 1

end MessageView

/-- `peekMessage`. -/
def peekMessage (data : Bytes) : Lib.Front MessageView :=
  match extractMessage data with
  | .error .Incomplete => .incomplete
  | .error _ => .malformed
  | .ok (message, consumed) => .frame message consumed

theorem readInt_toBe (h : value < 2 ^ (8 * width)) (rest : Bytes) :
    readInt width (Lib.toBe width value ++ rest) = value := by
  rw [readInt, take_left' (Lib.length_toBe width value), Lib.ofBe_toBe h]

variable {message : MessageView}

theorem extractMessage_wire (hvalid : message.Valid) (rest : Bytes) :
    extractMessage (message.wire ++ rest) = .ok (message, message.wire.length) := by
  have hlen := message.length_wire
  rw [kMessageHeaderSize] at hlen
  rw [MessageView.Valid, kLengthFieldSize] at hvalid
  have hhead : message.wire ++ rest = message.type ::
      (Lib.toBe 4 (kLengthFieldSize + message.payload.length) ++ (message.payload ++ rest)) := by
    rw [MessageView.wire, cons_append, append_assoc]
  have hhdr : parseHeader (message.wire ++ rest) =
      .ok ⟨message.type, kLengthFieldSize + message.payload.length⟩ := by
    have hlong : ¬ (message.wire ++ rest).length < kMessageHeaderSize := by
      rw [length_append, kMessageHeaderSize]
      omega
    rw [hhead] at hlong
    rw [hhead, parseHeader, if_neg hlong]
    simp only [readInt_toBe (show kLengthFieldSize + message.payload.length < 2 ^ (8 * 4) by
      rw [kLengthFieldSize]; omega)]
    rw [if_neg (by rw [kLengthFieldSize]; omega)]
  have hpay : ((message.wire ++ rest).drop kMessageHeaderSize).take message.payload.length =
      message.payload := by
    rw [hhead, kMessageHeaderSize, drop_succ_cons, drop_left' (Lib.length_toBe _ _), take_left]
  rw [extractMessage, hhdr]
  simp only
  rw [if_neg (by rw [length_append, hlen, kLengthFieldSize]; omega), Nat.add_sub_cancel_left,
    hpay, hlen, kLengthFieldSize]
  congr 2
  omega

theorem extractMessage_short (hvalid : message.Valid)
    (hdata : data ++ rest = message.wire ++ more) (hshort : data.length < message.wire.length) :
    extractMessage data = .error .Incomplete := by
  rw [MessageView.Valid, kLengthFieldSize] at hvalid
  have hlen := message.length_wire
  rw [kMessageHeaderSize] at hlen
  rw [extractMessage]
  by_cases hfive : data.length < kMessageHeaderSize
  · cases data with
    | nil => rfl
    | cons type bytes => rw [parseHeader, if_pos hfive]
  cases data with
  | nil => exact absurd (by decide : 0 < kMessageHeaderSize) hfive
  | cons type bytes =>
  have hcons := hdata
  rw [MessageView.wire, cons_append, cons_append, List.cons.injEq] at hcons
  obtain ⟨rfl, hbytes⟩ := hcons
  rw [kMessageHeaderSize, length_cons] at hfive
  have hfour : readInt 4 bytes = kLengthFieldSize + message.payload.length := by
    have htake := congrArg (List.take 4) hbytes
    rw [take_append_of_le_length (by omega), append_assoc,
      take_left' (Lib.length_toBe _ _)] at htake
    rw [readInt, htake, Lib.ofBe_toBe (by rw [kLengthFieldSize]; omega)]
  have hhdr : parseHeader (message.type :: bytes) =
      .ok ⟨message.type, kLengthFieldSize + message.payload.length⟩ := by
    rw [parseHeader, if_neg (by rw [kMessageHeaderSize, length_cons]; omega)]
    simp only [hfour]
    rw [if_neg (by rw [kLengthFieldSize]; omega)]
  rw [hhdr]
  simp only
  rw [if_pos (by rw [kLengthFieldSize]; omega)]

theorem extractMessage_le (h : extractMessage data = .ok (message, consumed)) :
    0 < consumed ∧ consumed ≤ data.length := by
  rw [extractMessage] at h
  split at h
  · cases h
  simp only at h
  split at h
  · cases h
  rename_i hfits
  cases h
  exact ⟨Nat.add_pos_left Nat.one_pos _, Nat.le_of_not_lt hfits⟩

/-- Messages in the ring buffer of a client. -/
def framing : Lib.Framing MessageView where
  front := peekMessage
  wire := MessageView.wire
  Valid := MessageView.Valid
  front_nil := rfl
  consumed_le {data message consumed} h := by
    rw [peekMessage] at h
    split at h
    · cases h
    · cases h
    rename_i hextract
    cases h
    exact extractMessage_le hextract
  front_wire {message} rest hvalid := by
    rw [peekMessage, extractMessage_wire hvalid]
  front_short {message data rest more} hvalid hdata hshort := by
    rw [peekMessage, extractMessage_short hvalid hdata hshort]

/-- A loop that waits for so many ReadyForQuery. -/
def Loop.receiver (loop : Loop) (expectedReady : Nat) :
    Lib.Receiver MessageView Machine Response PostgresError where
  framing
  step := loop.step expectedReady
  malformed := protocolError "Malformed PostgreSQL message frame"
  overflow :=
    { type := .POSTGRES_ERROR_BUFFER_OVERFLOW
      extraMessage := ascii "PostgreSQL response exceeds receive buffer capacity" }

end Galay.Postgres
