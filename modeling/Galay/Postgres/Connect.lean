import Galay.Postgres.Auth
import Galay.Postgres.Backend

/-!
# Connecting (`PostgresConnectAwaitable`)

The machine that connects and answers the authentication requests of a backend.
-/

namespace Galay.Postgres

structure PostgresConfig where
  host : Bytes := ascii "127.0.0.1"
  username : Bytes := []
  password : Bytes := []
  database : Bytes := []
  applicationName : Bytes := []
  port : Nat := 5432

/-! ## Encoders -/

def kMsgPassword : UInt8 := 0x70
def kProtocolVersion3 : Nat := 196608
def kMaxStartupPacketLength : Nat := 10000

def wrapMessage (type : UInt8) (payload : Bytes) : Bytes :=
  if payload.length > 2 ^ 31 - 1 - kLengthFieldSize then []
  else type :: (Lib.toBe 4 (kLengthFieldSize + payload.length) ++ payload)

def encodeStartupMessage (config : PostgresConfig) : Bytes :=
  if config.username = [] ∨ 0 ∈ config.username ∨ 0 ∈ config.database ∨
      0 ∈ config.applicationName then []
  else
    let payload := Lib.toBe 4 kProtocolVersion3 ++
      (writeCString (ascii "user") ++ writeCString config.username) ++
      (if config.database ≠ [] then
        writeCString (ascii "database") ++ writeCString config.database else []) ++
      (if config.applicationName ≠ [] then
        writeCString (ascii "application_name") ++ writeCString config.applicationName else []) ++
      [0]
    let totalLength := kLengthFieldSize + payload.length
    if totalLength > kMaxStartupPacketLength ∨ totalLength > 2 ^ 31 - 1 then []
    else Lib.toBe 4 totalLength ++ payload

def encodeSASLInitialResponse (mechanism clientFirst : Bytes) : Bytes :=
  if mechanism = [] ∨ 0 ∈ mechanism ∨ clientFirst.length > 2 ^ 31 - 1 then []
  else
    wrapMessage kMsgPassword
      (writeCString mechanism ++ Lib.toBe 4 clientFirst.length ++ clientFirst)

def encodeSASLResponse (clientFinal : Bytes) : Bytes := wrapMessage kMsgPassword clientFinal

def encodePasswordMessage (password : Bytes) : Bytes :=
  if 0 ∈ password then [] else wrapMessage kMsgPassword (password ++ [0])

def md5Password (crypto : Crypto) (username password salt : Bytes) : Bytes :=
  ascii "md5" ++ crypto.md5 (crypto.md5 (password ++ username) ++ salt)

/-! ## Errors -/

inductive IOErrorCode
  | kDisconnectError | kNotReady | kParamInvalid | kRecvFailed | kSendFailed | kAcceptFailed
  | kConnectFailed | kBindFailed | kListenFailed | kOpenFailed | kReadFailed | kWriteFailed
  | kStatFailed | kSyncFailed | kSeekFailed | kTimeout | kNotRunningOnIOScheduler | kClosed
  | kOutOfMemory
  deriving DecidableEq

structure IOError where
  code : IOErrorCode
  message : Bytes

def mapIoError (error : IOError) (fallback : PostgresErrorType) : PostgresError :=
  if error.code = .kTimeout then
    { type := .POSTGRES_ERROR_TIMEOUT, extraMessage := error.message }
  else if error.code = .kDisconnectError ∨ error.code = .kClosed then
    { type := .POSTGRES_ERROR_CONNECTION_CLOSED, extraMessage := error.message }
  else if error.code = .kNotReady ∨ error.code = .kNotRunningOnIOScheduler then
    { type := .POSTGRES_ERROR_INTERNAL, extraMessage := error.message }
  else
    { type := fallback, extraMessage := error.message }

def invalidatesConnection (error : IOError) : Bool :=
  error.code ≠ .kNotReady ∧ error.code ≠ .kNotRunningOnIOScheduler

def paramError (message : String) : PostgresError :=
  { type := .POSTGRES_ERROR_INVALID_PARAM, extraMessage := ascii message }

def authError (message : Bytes) : PostgresError :=
  { type := .POSTGRES_ERROR_AUTH, extraMessage := message }

/-! ## The machine -/

inductive AuthStage
  | SendStartup | AwaitAuthRequest | SendSASLInitial | AwaitSASLContinue | SendSASLFinal
  | AwaitSASLFinal | AwaitReadyForQuery
  deriving DecidableEq

inductive Phase
  | Invalid | Connect | StartupWrite | AuthRead | AuthWrite | StartupComplete | Done
  deriving DecidableEq

/-- The state of the machine, with the client and its ring buffer. -/
structure ConnectState where
  config : PostgresConfig
  capacity : Nat
  /-- What the secure generator gives, draw by draw. -/
  secure : Nat → Bytes
  client : Client := {}
  backendKeyData : Option (Nat × Nat) := none
  isClosed : Bool := true
  ringBuffer : Bytes := []
  scram : ScramSha256 := {}
  outgoing : Bytes := []
  clientNonce : Bytes := []
  result : Option (Except PostgresError (Option Bool)) := none
  sent : Nat := 0
  phase : Phase := .Connect
  authStage : AuthStage := .SendStartup
  authenticationOk : Bool := false
  serverSignatureVerified : Bool := false
  /-- The messages taken from the ring buffer, which the source does not keep. -/
  taken : List MessageView := []

/-- What a message does: the loop over the messages goes on, or returns. -/
inductive Handled
  | next (state : ConnectState)
  | done (state : ConnectState)
  | failed (error : PostgresError) (state : ConnectState)

namespace ConnectState

variable (crypto : Crypto) (state : ConnectState)

/-- `SharedState`, with whether the host is an IPv4 address. -/
def start (hostValid : Bool) : ConnectState :=
  if state.config.host = [] ∨ state.config.username = [] ∨ state.config.port = 0 ∨
      ¬ hostValid then
    { state with
      result := some (.error (paramError
        "PostgreSQL async connect requires an IPv4 address, username, and port"))
      phase := .Invalid }
  else
    let outgoing := encodeStartupMessage state.config
    if outgoing = [] then
      { state with
        outgoing
        result := some (.error (paramError "Invalid PostgreSQL startup parameters"))
        phase := .Invalid }
    else
      { state with outgoing }

def setError (error : PostgresError) : ConnectState :=
  { state with isClosed := true, result := some (.error error), phase := .Invalid }

def setIoError (error : IOError) (fallback : PostgresErrorType) : ConnectState :=
  if invalidatesConnection error then state.setError (mapIoError error fallback)
  else { state with result := some (.error (mapIoError error fallback)), phase := .Invalid }

def completeSuccess : ConnectState :=
  { state with isClosed := false, phase := .Done, result := some (.ok (some true)) }

/-- The message leaves the ring buffer. -/
def consume (message : MessageView) (consumed : Nat) : ConnectState :=
  { state with
    ringBuffer := state.ringBuffer.drop consumed, taken := state.taken ++ [message] }

/-- What is to be sent, and what for. -/
def write (outgoing : Bytes) (authStage : AuthStage) : ConnectState :=
  { state with outgoing, sent := 0, authStage, phase := .AuthWrite }

def onSasl (mechanisms : List Bytes) : Handled :=
  if state.authStage ≠ .AwaitAuthRequest ∨ ascii "SCRAM-SHA-256" ∉ mechanisms then
    .failed (authError (ascii "Server did not offer SCRAM-SHA-256 at the expected stage")) state
  else
    let drawn := { state with secure := fun k => state.secure (k + 1) }
    match generateNonce (state.secure 0) with
    | .error error => .failed (authError error) drawn
    | .ok nonce =>
      match state.scram.clientFirstMessage [] nonce with
      | (.error error, scram) =>
        .failed (authError error) { drawn with clientNonce := nonce, scram }
      | (.ok first, scram) =>
        let outgoing := encodeSASLInitialResponse (ascii "SCRAM-SHA-256") first
        if outgoing = [] then
          .failed (authError (ascii "Failed to encode PostgreSQL SCRAM initial response"))
            { drawn with clientNonce := nonce, scram, outgoing }
        else
          .done ({ drawn with clientNonce := nonce, scram }.write outgoing .SendSASLInitial)

def onSaslContinue (data : Bytes) : Handled :=
  if state.authStage ≠ .AwaitSASLContinue then
    .failed (authError (ascii "Unexpected SCRAM continuation")) state
  else
    match state.scram.parseServerFirst data with
    | (.error error, scram) => .failed (authError error) { state with scram }
    | (.ok (), scram) =>
      match scram.clientFinalMessage crypto state.config.password with
      | (.error error, scram) => .failed (authError error) { state with scram }
      | (.ok finalMessage, scram) =>
        let outgoing := encodeSASLResponse finalMessage
        if outgoing = [] then
          .failed (authError (ascii "Failed to encode PostgreSQL SCRAM final response"))
            { state with scram, outgoing }
        else
          .done ({ state with scram }.write outgoing .SendSASLFinal)

def onSaslFinal (data : Bytes) : Handled :=
  if state.authStage ≠ .AwaitSASLFinal then
    .failed (authError (ascii "Unexpected SCRAM final response")) state
  else
    match state.scram.verifyServerFinal data with
    | (.error error, scram) => .failed (authError error) { state with scram }
    | (.ok (), scram) =>
      .next { state with
        scram, serverSignatureVerified := true, authStage := .AwaitAuthRequest }

def onMd5Password (salt : Bytes) : Handled :=
  if salt.length ≠ 4 then
    .failed (protocolError "Malformed PostgreSQL MD5 authentication salt") state
  else
    .done (state.write (encodePasswordMessage
      (md5Password crypto state.config.username state.config.password salt)) .AwaitAuthRequest)

def onAuthentication (authentication : AuthenticationRequest) : Handled :=
  match authentication.kind with
  | .Ok => .next { state with authenticationOk := true, authStage := .AwaitReadyForQuery }
  | .Sasl => state.onSasl authentication.mechanisms
  | .SaslContinue => state.onSaslContinue crypto authentication.data
  | .SaslFinal => state.onSaslFinal authentication.data
  | .Md5Password => state.onMd5Password crypto authentication.data
  | .CleartextPassword =>
    .done (state.write (encodePasswordMessage state.config.password) .AwaitAuthRequest)
  | _ => .failed (authError (ascii "Unsupported PostgreSQL authentication method")) state

def onReadyForQuery (status : UInt8) : Handled :=
  if ¬ state.authenticationOk ∨ state.clientNonce ≠ [] ∧ ¬ state.serverSignatureVerified then
    .failed (authError (ascii "Authentication did not complete before ReadyForQuery")) state
  else
    .done { state with
      client := { state.client with transactionStatus := status }, phase := .StartupComplete }

/-- The body of the loop in `parseFromRingBuffer`. -/
def onMessage (message : MessageView) (consumed : Nat) : Handled :=
  if message.type = kMsgAuthentication then
    match parseAuthenticationRequest message.payload with
    | .error _ => .failed (protocolError "Malformed PostgreSQL AuthenticationRequest") state
    | .ok authentication =>
      (state.consume message consumed).onAuthentication crypto authentication
  else if message.type = kMsgParameterStatus then
    match parseParameterStatus message.payload with
    | .error _ => .failed (protocolError "Malformed ParameterStatus") state
    | .ok (name, value) =>
      .next ({ state with
        client := state.client.setServerParameter name value }.consume message consumed)
  else if message.type = kMsgBackendKeyData then
    match parseBackendKeyData message.payload with
    | .error _ => .failed (protocolError "Malformed BackendKeyData") state
    | .ok key => .next ({ state with backendKeyData := some key }.consume message consumed)
  else if message.type = kMsgNoticeResponse then
    .next (state.consume message consumed)
  else if message.type = kMsgErrorResponse then
    match parseErrorResponse message.payload with
    | .error _ => .failed (protocolError "Malformed ErrorResponse") (state.consume message consumed)
    | .ok fields =>
      .failed (serverError fields .POSTGRES_ERROR_AUTH) (state.consume message consumed)
  else if message.type = kMsgReadyForQuery then
    match parseReadyForQuery message.payload with
    | .error _ => .failed (protocolError "Malformed ReadyForQuery") (state.consume message consumed)
    | .ok status => (state.consume message consumed).onReadyForQuery status
  else
    .failed (protocolError "Unexpected PostgreSQL message during startup") state

end ConnectState

/-! ## What a message does -/

/-- An authentication request of this kind. -/
def MessageView.Requests (message : MessageView) (kind : AuthRequestKind) : Prop :=
  message.type = kMsgAuthentication ∧ ∃ authentication,
    parseAuthenticationRequest message.payload = .ok authentication ∧ authentication.kind = kind

/-- What a message that is no error does once it has been taken. -/
inductive Handles (crypto : Crypto) : ConnectState → MessageView → ConnectState → Prop
  | ok {state : ConnectState} {message : MessageView} (hreqs : message.Requests .Ok) :
    Handles crypto state message
      { state with authenticationOk := true, authStage := .AwaitReadyForQuery }
  | sasl {state : ConnectState} {message : MessageView} {nonce first outgoing : Bytes}
    {scram : ScramSha256} {secure : Nat → Bytes}
    (hnonce : generateNonce (state.secure 0) = .ok nonce)
    (hfirst : state.scram.clientFirstMessage [] nonce = (.ok first, scram)) :
    Handles crypto state message
      ({ state with secure, clientNonce := nonce, scram }.write outgoing .SendSASLInitial)
  | saslContinue {state : ConnectState} {message : MessageView} {data final outgoing : Bytes}
    {parsed scram : ScramSha256} (hother : ∀ kind, message.Requests kind → kind = .SaslContinue)
    (hparse : state.scram.parseServerFirst data = (.ok (), parsed))
    (hfinal : parsed.clientFinalMessage crypto state.config.password = (.ok final, scram)) :
    Handles crypto state message ({ state with scram }.write outgoing .SendSASLFinal)
  | saslFinal {state : ConnectState} {message : MessageView} {data : Bytes} {scram : ScramSha256}
    (hother : ∀ kind, message.Requests kind → kind = .SaslFinal)
    (hverified : state.scram.verifyServerFinal data = (.ok (), scram)) :
    Handles crypto state message
      { state with scram, serverSignatureVerified := true, authStage := .AwaitAuthRequest }
  | password {state : ConnectState} {message : MessageView} {outgoing : Bytes}
    (hother : ∀ kind, message.Requests kind → kind = .Md5Password ∨ kind = .CleartextPassword) :
    Handles crypto state message (state.write outgoing .AwaitAuthRequest)
  | common {state : ConnectState} {message : MessageView} {client : Client}
    {backendKeyData : Option (Nat × Nat)} (hother : ∀ kind, ¬ message.Requests kind) :
    Handles crypto state message { state with client, backendKeyData }
  | ready {state : ConnectState} {message : MessageView} {client : Client}
    (hother : ∀ kind, ¬ message.Requests kind) (hok : state.authenticationOk = true)
    (hverified : state.clientNonce = [] ∨ state.serverSignatureVerified = true) :
    Handles crypto state message { state with client, phase := .StartupComplete }

/-- What the loop goes on with, or returns with. -/
def Handled.state? : Handled → Option ConnectState
  | .next state | .done state => some state
  | .failed _ _ => none

namespace ConnectState

variable {crypto : Crypto} {state next : ConnectState} {message : MessageView}

theorem onSasl_cases
    (h : (state.onSasl mechanisms).state? = some next) : Handles crypto state message next := by
  rw [onSasl] at h
  split at h
  · cases h
  simp only at h
  split at h
  · cases h
  rename_i nonce hnonce
  split at h
  · cases h
  rename_i first scram hfirst
  split at h
  · cases h
  cases h
  exact .sasl hnonce hfirst

theorem onSaslContinue_cases (hother : ∀ kind, message.Requests kind → kind = .SaslContinue)
    (h : (state.onSaslContinue crypto data).state? = some next) :
    Handles crypto state message next := by
  rw [onSaslContinue] at h
  split at h
  · cases h
  split at h
  · cases h
  rename_i parsed hparse
  split at h
  · cases h
  rename_i final scram hfinal
  simp only at h
  split at h
  · cases h
  cases h
  exact .saslContinue hother hparse hfinal

theorem onSaslFinal_cases (hother : ∀ kind, message.Requests kind → kind = .SaslFinal)
    (h : (state.onSaslFinal data).state? = some next) : Handles crypto state message next := by
  rw [onSaslFinal] at h
  split at h
  · cases h
  split at h
  · cases h
  rename_i scram hverified
  cases h
  exact .saslFinal hother hverified

theorem onMd5Password_cases (hother : ∀ kind, message.Requests kind → kind = .Md5Password)
    (h : (state.onMd5Password crypto salt).state? = some next) :
    Handles crypto state message next := by
  rw [onMd5Password] at h
  split at h
  · cases h
  cases h
  exact .password fun kind hkind => .inl (hother kind hkind)

theorem onReadyForQuery_cases (hother : ∀ kind, ¬ message.Requests kind)
    (h : (state.onReadyForQuery status).state? = some next) : Handles crypto state message next := by
  rw [onReadyForQuery] at h
  split at h
  · cases h
  rename_i hauth
  rw [not_or, not_not, not_and, not_not] at hauth
  cases h
  exact .ready hother hauth.1 (or_iff_not_imp_left.2 hauth.2)

theorem onAuthentication_cases (htype : message.type = kMsgAuthentication)
    (hparse : parseAuthenticationRequest message.payload = .ok authentication)
    (h : (state.onAuthentication crypto authentication).state? = some next) :
    Handles crypto state message next := by
  have hkind : ∀ kind, message.Requests kind → kind = authentication.kind := by
    intro kind ⟨_, other, hother, hkind⟩
    rw [hparse] at hother
    cases hother
    exact hkind.symm
  rw [onAuthentication] at h
  split at h
  · rename_i hok
    cases h
    exact .ok ⟨htype, _, hparse, hok⟩
  · exact onSasl_cases h
  · rename_i hcontinue
    exact onSaslContinue_cases (hcontinue ▸ hkind) h
  · rename_i hfinal
    exact onSaslFinal_cases (hfinal ▸ hkind) h
  · rename_i hmd5
    exact onMd5Password_cases (hmd5 ▸ hkind) h
  · rename_i hcleartext
    cases h
    exact .password fun kind hreqs => .inr (hcleartext ▸ hkind kind hreqs)
  cases h

theorem onMessage_cases (h : (state.onMessage crypto message consumed).state? = some next) :
    Handles crypto (state.consume message consumed) message next := by
  rw [onMessage] at h
  split at h
  · rename_i htype
    split at h
    · cases h
    rename_i hparse
    exact onAuthentication_cases htype hparse h
  rename_i htype
  have hother : ∀ kind, ¬ message.Requests kind := fun kind hkind => htype hkind.1
  split at h
  · split at h
    · cases h
    cases h
    exact .common hother
  split at h
  · split at h
    · cases h
    cases h
    exact .common hother
  split at h
  · cases h
    exact .common hother
  split at h
  · split at h
    · cases h
    cases h
  split at h
  · split at h
    · cases h
    exact onReadyForQuery_cases hother h
  cases h

theorem ringBuffer_of_handles (h : Handles crypto state message next) :
    next.ringBuffer = state.ringBuffer := by
  cases h <;> rfl

end ConnectState

/-! ## The loop and the callbacks -/

inductive Action
  | complete (result : Except PostgresError (Option Bool))
  | waitConnect
  | waitWrite (data : Bytes)
  | waitReadv
  | continue_

namespace ConnectState

variable (crypto : Crypto)

/-- Whether the machine has got on. -/
def parseFromRingBuffer (state : ConnectState) : Except PostgresError Bool × ConnectState :=
  match _hfront : peekMessage state.ringBuffer with
  | .incomplete => (.ok false, state)
  | .malformed => (.error (protocolError "Malformed PostgreSQL message frame"), state)
  | .frame message consumed =>
    match _hnext : state.onMessage crypto message consumed with
    | .next state => state.parseFromRingBuffer
    | .done state => (.ok true, state)
    | .failed error state => (.error error, state)
termination_by state.ringBuffer.length
decreasing_by
  rename_i state'
  have hst : (state'.onMessage crypto message consumed).state? = some state := by
    rw [_hnext]
    rfl
  have hbuffer := ringBuffer_of_handles (onMessage_cases hst)
  have hle := framing.consumed_le _hfront
  rw [hbuffer, consume]
  simp only [List.length_drop]
  omega

/-- Writing goes on, or the answer is read. -/
def advanceWrite (state : ConnectState) : Action × ConnectState :=
  if state.sent ≥ state.outgoing.length then
    let authStage :=
      if state.phase = .StartupWrite then .AwaitAuthRequest
      else if state.authStage = .SendSASLInitial then .AwaitSASLContinue
      else if state.authStage = .SendSASLFinal then .AwaitSASLFinal
      else state.authStage
    (.continue_, { state with sent := 0, authStage, phase := .AuthRead })
  else
    (.waitWrite (state.outgoing.drop state.sent), state)

/-- `options` is what setting the options of the socket comes to. -/
def advanceConnect (options : Except Bytes Unit) (state : ConnectState) : Action × ConnectState :=
  let cleared := { state with
    ringBuffer := [], client := {}, backendKeyData := none, isClosed := true }
  match options with
  | .error message =>
    let error := { type := .POSTGRES_ERROR_CONNECTION, extraMessage := message }
    (.complete (.error error), cleared.setError error)
  | .ok () => (.waitConnect, cleared)

def advanceRead (state : ConnectState) : Action × ConnectState :=
  match state.parseFromRingBuffer crypto with
  | (.error error, state) => (.complete (.error error), state.setError error)
  | (.ok true, state) => (.continue_, state)
  | (.ok false, state) =>
    if state.ringBuffer.length ≥ state.capacity then
      let error :=
        { type := .POSTGRES_ERROR_BUFFER_OVERFLOW
          extraMessage := ascii "PostgreSQL response exceeds receive buffer capacity" }
      (.complete (.error error), state.setError error)
    else
      (.waitReadv, state)

def advance (options : Except Bytes Unit) (state : ConnectState) : Action × ConnectState :=
  match state.result with
  | some result => (.complete result, state)
  | none =>
    match state.phase with
    | .Invalid =>
      let error :=
        { type := .POSTGRES_ERROR_INTERNAL
          extraMessage := ascii "PostgreSQL connect machine entered invalid state" }
      (.complete (.error error), state.setError error)
    | .Connect => advanceConnect options state
    | .StartupWrite | .AuthWrite => advanceWrite state
    | .AuthRead => advanceRead crypto state
    | .StartupComplete => (.continue_, state.completeSuccess)
    | .Done => (.complete (.ok (some true)), state.completeSuccess)

def onConnect (result : Except IOError Unit) (state : ConnectState) : ConnectState :=
  if state.result.isSome then state
  else
    match result with
    | .error error => state.setIoError error .POSTGRES_ERROR_CONNECTION
    | .ok () => { state with phase := .StartupWrite }

/-- What a read has brought into the ring buffer. -/
def onRead (result : Except IOError Bytes) (state : ConnectState) : ConnectState :=
  if state.result.isSome then state
  else
    match result with
    | .error error => state.setIoError error .POSTGRES_ERROR_RECV
    | .ok [] =>
      state.setError
        { type := .POSTGRES_ERROR_CONNECTION_CLOSED
          extraMessage := ascii "Connection closed during PostgreSQL startup" }
    | .ok data =>
      match { state with ringBuffer := state.ringBuffer ++ data }.parseFromRingBuffer crypto with
      | (.error error, state) => state.setError error
      | (.ok _, state) => state

def onWrite (result : Except IOError Nat) (state : ConnectState) : ConnectState :=
  if state.result.isSome then state
  else
    match result with
    | .error error => state.setIoError error .POSTGRES_ERROR_SEND
    | .ok 0 =>
      state.setError
        { type := .POSTGRES_ERROR_SEND
          extraMessage := ascii "PostgreSQL startup send returned zero bytes" }
    | .ok written => { state with sent := state.sent + written }

end ConnectState

/-- What happens to the machine. -/
inductive ConnectEvent
  | advance (options : Except Bytes Unit)
  | onConnect (result : Except IOError Unit)
  | onRead (result : Except IOError Bytes)
  | onWrite (result : Except IOError Nat)

namespace ConnectState

variable (crypto : Crypto)

def step (state : ConnectState) : ConnectEvent → ConnectState
  | .advance options => (state.advance crypto options).2
  | .onConnect result => state.onConnect result
  | .onRead result => state.onRead crypto result
  | .onWrite result => state.onWrite result

def run (state : ConnectState) (events : List ConnectEvent) : ConnectState :=
  events.foldl (step crypto) state

end ConnectState

end Galay.Postgres
