import Galay.Postgres.Backend

/-!
# Conversations with a backend

What a server may answer to the commands of a client (`Serves`), and how the loops of the client take
it: a loop comes to its end with the last ReadyForQuery if and only if it knows every message, no
columns were announced before those of a row, and every boundary is answered
(`play_iff`).
-/

namespace Galay.Postgres

open List

/-! ## What a server may answer -/

inductive Command
  | query | parse | bind | describePortal | describeStatement | execute | close | sync
  deriving DecidableEq

/-- The commands that are answered with a ReadyForQuery. -/
def Command.isBoundary : Command → Bool
  | query | sync => true
  | parse | bind | describePortal | describeStatement | execute | close => false

/-- Where a server is in its answers. It keeps the number of columns that it announced last, since
the last ReadyForQuery. -/
inductive Stage
  | idle (described : Option Nat)
  | statements (described : Option Nat)
  | statementRows (columns : Nat)
  | statementCopy (described : Option Nat)
  | queryFailed (described : Option Nat)
  | describing (described : Option Nat)
  | executing (described : Option Nat)
  | executingCopy (described : Option Nat)

namespace Stage

def described : Stage → Option Nat
  | idle described | statements described | statementCopy described | queryFailed described
  | describing described | executing described | executingCopy described => described
  | statementRows columns => some columns

end Stage

/-- The messages that may come at any time. -/
def Message.isAsync : Message → Bool
  | .noticeResponse _ | .parameterStatus _ _ | .notificationResponse _ _ _ => true
  | _ => false

/-- What is left to answer when a command of the extended protocol has failed. -/
def skipToSync (commands : List Command) : List Command := commands.dropWhile (· ≠ .sync)

/-- One message of a server to which commands are still to be answered. -/
inductive Answers : Stage → List Command → Message → Stage → List Command → Prop
  | async {stage : Stage} {commands : List Command} {message : Message} (h : message.isAsync = true) :
    Answers stage commands message stage commands
  -- a query of any number of statements
  | statementRows {described : Option Nat} {commands : List Command}
    {fields : List RowDescriptionField} :
    Answers (.statements described) commands (.rowDescription fields)
      (.statementRows fields.length) commands
  | statementRow {columns : Nat} {commands : List Command} {values : PostgresRow}
    (h : values.length = columns) :
    Answers (.statementRows columns) commands (.dataRow values) (.statementRows columns) commands
  | statementRowsEnd {columns : Nat} {commands : List Command} {tag : Bytes} :
    Answers (.statementRows columns) commands (.commandComplete tag) (.statements (some columns))
      commands
  | statementEnd {described : Option Nat} {commands : List Command} {tag : Bytes} :
    Answers (.statements described) commands (.commandComplete tag) (.statements described) commands
  | emptyQuery {described : Option Nat} {commands : List Command} :
    Answers (.statements described) commands .emptyQueryResponse (.statements described) commands
  | statementCopy {described : Option Nat} {commands : List Command} {formats : Bytes} :
    Answers (.statements described) commands (.copyOutResponse formats) (.statementCopy described)
      commands
  | statementCopyData {described : Option Nat} {commands : List Command} {data : Bytes} :
    Answers (.statementCopy described) commands (.copyData data) (.statementCopy described) commands
  | statementCopyDone {described : Option Nat} {commands : List Command} :
    Answers (.statementCopy described) commands .copyDone (.statements described) commands
  | statementFails {described : Option Nat} {commands : List Command}
    {fields : List (UInt8 × Bytes)} :
    Answers (.statements described) commands (.errorResponse fields) (.queryFailed described) commands
  | rowsFail {columns : Nat} {commands : List Command} {fields : List (UInt8 × Bytes)} :
    Answers (.statementRows columns) commands (.errorResponse fields) (.queryFailed (some columns))
      commands
  | copyFails {described : Option Nat} {commands : List Command} {fields : List (UInt8 × Bytes)} :
    Answers (.statementCopy described) commands (.errorResponse fields) (.queryFailed described)
      commands
  | queryReady {described : Option Nat} {commands : List Command} {status : UInt8} :
    Answers (.statements described) commands (.readyForQuery status) (.idle none) commands
  | failedReady {described : Option Nat} {commands : List Command} {status : UInt8} :
    Answers (.queryFailed described) commands (.readyForQuery status) (.idle none) commands
  -- the extended protocol
  | parse {described : Option Nat} {commands : List Command} :
    Answers (.idle described) (.parse :: commands) .parseComplete (.idle described) commands
  | bind {described : Option Nat} {commands : List Command} :
    Answers (.idle described) (.bind :: commands) .bindComplete (.idle described) commands
  | close {described : Option Nat} {commands : List Command} :
    Answers (.idle described) (.close :: commands) .closeComplete (.idle described) commands
  | describePortal {described : Option Nat} {commands : List Command}
    {fields : List RowDescriptionField} :
    Answers (.idle described) (.describePortal :: commands) (.rowDescription fields)
      (.idle (some fields.length)) commands
  | describePortalNoData {described : Option Nat} {commands : List Command} :
    Answers (.idle described) (.describePortal :: commands) .noData (.idle described) commands
  | describeStatement {described : Option Nat} {commands : List Command} {oids : List Nat} :
    Answers (.idle described) (.describeStatement :: commands) (.parameterDescription oids)
      (.describing described) commands
  | describing {described : Option Nat} {commands : List Command}
    {fields : List RowDescriptionField} :
    Answers (.describing described) commands (.rowDescription fields) (.idle (some fields.length))
      commands
  | describingNoData {described : Option Nat} {commands : List Command} :
    Answers (.describing described) commands .noData (.idle described) commands
  | executeRow {described : Option Nat} {commands : List Command} {values : PostgresRow}
    (h : ∀ columns, described = some columns → values.length = columns) :
    Answers (.executing described) commands (.dataRow values) (.executing described) commands
  | executeEnd {described : Option Nat} {commands : List Command} {tag : Bytes} :
    Answers (.executing described) commands (.commandComplete tag) (.idle described) commands
  | executeEmpty {described : Option Nat} {commands : List Command} :
    Answers (.executing described) commands .emptyQueryResponse (.idle described) commands
  | executeSuspended {described : Option Nat} {commands : List Command} :
    Answers (.executing described) commands .portalSuspended (.idle described) commands
  | executeCopy {described : Option Nat} {commands : List Command} {formats : Bytes} :
    Answers (.executing described) commands (.copyOutResponse formats) (.executingCopy described)
      commands
  | executeCopyData {described : Option Nat} {commands : List Command} {data : Bytes} :
    Answers (.executingCopy described) commands (.copyData data) (.executingCopy described) commands
  | executeCopyDone {described : Option Nat} {commands : List Command} :
    Answers (.executingCopy described) commands .copyDone (.executing described) commands
  | commandFails {described : Option Nat} {command : Command} {commands : List Command}
    {fields : List (UInt8 × Bytes)} (h : command.isBoundary = false) :
    Answers (.idle described) (command :: commands) (.errorResponse fields) (.idle described)
      (skipToSync commands)
  | describingFails {described : Option Nat} {commands : List Command}
    {fields : List (UInt8 × Bytes)} :
    Answers (.describing described) commands (.errorResponse fields) (.idle described)
      (skipToSync commands)
  | executeFails {described : Option Nat} {commands : List Command} {fields : List (UInt8 × Bytes)} :
    Answers (.executing described) commands (.errorResponse fields) (.idle described)
      (skipToSync commands)
  | executeCopyFails {described : Option Nat} {commands : List Command}
    {fields : List (UInt8 × Bytes)} :
    Answers (.executingCopy described) commands (.errorResponse fields) (.idle described)
      (skipToSync commands)
  | syncFails {described : Option Nat} {commands : List Command} {fields : List (UInt8 × Bytes)} :
    Answers (.idle described) (.sync :: commands) (.errorResponse fields) (.idle described)
      (.sync :: commands)
  | sync {described : Option Nat} {commands : List Command} {status : UInt8} :
    Answers (.idle described) (.sync :: commands) (.readyForQuery status) (.idle none) commands

/-- The server turns to the next command when that needs no message of its own. -/
inductive Begins : Stage → List Command → Stage → List Command → Prop
  | query {described : Option Nat} {commands : List Command} :
    Begins (.idle described) (.query :: commands) (.statements described) commands
  | execute {described : Option Nat} {commands : List Command} :
    Begins (.idle described) (.execute :: commands) (.executing described) commands

/-- The messages of a server from a stage on, until no boundary is left to answer. -/
inductive Serves : Stage → List Command → List Message → Prop
  | nil {described : Option Nat} {commands : List Command}
    (h : ∀ command ∈ commands, command.isBoundary = false) : Serves (.idle described) commands []
  | begins {stage stage' : Stage} {commands commands' : List Command} {messages : List Message}
    (h : Begins stage commands stage' commands') (H : Serves stage' commands' messages) :
    Serves stage commands messages
  | answers {stage stage' : Stage} {commands commands' : List Command} {message : Message}
    {messages : List Message} (h : Answers stage commands message stage' commands')
    (H : Serves stage' commands' messages) : Serves stage commands (message :: messages)

/-- A response to commands: it ends with a ReadyForQuery. -/
structure Conforms (commands : List Command) (messages : List Message) : Prop where
  serves : Serves (.idle none) commands messages
  ready : ∃ before status, messages = before ++ [.readyForQuery status]
  valid : ∀ message ∈ messages, message.Valid

/-! ## Rows and the columns announced for them

`before` and `last` are numbers of columns announced since the last ReadyForQuery: by the last
RowDescription, and by all others. -/

/-- Every row has the columns that were announced last. -/
def Described : (before last : Nat) → List Message → Prop
  | _, _, [] => True
  | before, last, .rowDescription fields :: messages =>
    Described (before + last) fields.length messages
  | before, last, .dataRow values :: messages =>
    (before + last = 0 ∨ values.length = last) ∧ Described before last messages
  | _, _, .readyForQuery _ :: messages => Described 0 0 messages
  | before, last, _ :: messages => Described before last messages

/-- When a row comes, its RowDescription is the only one so far that announced columns. -/
def OnlyDescription : (before last : Nat) → List Message → Prop
  | _, _, [] => True
  | before, last, .rowDescription fields :: messages =>
    OnlyDescription (before + last) fields.length messages
  | before, last, .dataRow _ :: messages => before = 0 ∧ OnlyDescription before last messages
  | _, _, .readyForQuery _ :: messages => OnlyDescription 0 0 messages
  | before, last, _ :: messages => OnlyDescription before last messages

/-- What a server has announced agrees with the counts. -/
def Stage.Agrees (stage : Stage) (before last : Nat) : Prop :=
  match stage.described with
  | none => before = 0 ∧ last = 0
  | some columns => last = columns

theorem Begins.described
    (H : Begins stage commands stage' commands') : stage'.described = stage.described := by
  cases H <;> rfl

theorem Serves.described (H : Serves stage commands messages) (hagrees : stage.Agrees before last) :
    Described before last messages := by
  induction H generalizing before last with
  | nil => trivial
  | begins h _ ih =>
    apply ih
    rw [Stage.Agrees, h.described]
    exact hagrees
  | answers h _ ih =>
  have hkeep := @ih before last
  have hready := @ih 0 0
  cases h with
  | async h =>
    revert h
    cases ‹Message› with
    | noticeResponse | parameterStatus | notificationResponse => exact fun _ => hkeep hagrees
    | _ => exact nofun
  | statementRows | describePortal | describing => exact ih rfl
  | statementRow h => exact ⟨.inr (h.trans hagrees.symm), hkeep hagrees⟩
  | @executeRow described _ values h =>
    refine ⟨?_, hkeep hagrees⟩
    cases described with
    | none => exact .inl (by rw [hagrees.1, hagrees.2])
    | some columns => exact .inr ((h columns rfl).trans hagrees.symm)
  | queryReady | failedReady | sync => exact hready ⟨rfl, rfl⟩
  | _ => exact hkeep hagrees

/-! ## The loops on these messages -/

/-- What a client asks for. -/
inductive Request
  | query
  | execute
  | pipeline (commands : List Command)

namespace Request

def commands : Request → List Command
  | query => [.query]
  | execute => [.bind, .describePortal, .execute, .sync]
  | pipeline commands => commands

def loop : Request → Loop
  | query => PostgresQueryAwaitable
  | execute => PostgresExecuteAwaitable
  | pipeline _ => PostgresPipelineAwaitable

/-- How many ReadyForQuery the loop waits for. -/
def expectedReady : Request → Nat
  | query | execute => 1
  | pipeline commands => commands.countP Command.isBoundary

end Request

/-- The types of messages that a loop has a case for. -/
def Loop.knows (loop : Loop) (message : Message) : Bool :=
  message.type ∈ [kMsgRowDescription, kMsgDataRow, kMsgCommandComplete, kMsgParameterStatus,
    kMsgErrorResponse, kMsgReadyForQuery] ++ loop.skipped ∨
    loop.checksBind ∧ message.type = kMsgBindComplete

/-- What a loop does at a message. -/
def Loop.onMessage (loop : Loop) (expectedReady : Nat) (machine : Machine) :
    Message → Lib.Move Machine Response PostgresError
  | .rowDescription fields =>
    .next { machine with current := appendFields machine.current fields }
  | .dataRow values =>
    if machine.current.fieldCount ≠ 0 ∧ values.length ≠ machine.current.fieldCount then
      .failed (protocolError "Malformed DataRow")
    else
      .next { machine with current := machine.current.addRow values }
  | .commandComplete tag =>
    .next { machine with
      current := { machine.current with commandTag := tag, affectedRows := affectedRows tag } }
  | .parameterStatus name value =>
    .next { machine with client := machine.client.setServerParameter name value }
  | .errorResponse fields =>
    .next { machine with
      error := machine.error.or (some (serverError (ErrorFields.ofList {} [] fields)
        loop.errorType)) }
  | .readyForQuery status => onReadyForQuery expectedReady machine status
  | message =>
    if loop.knows message then .next machine else .failed (protocolError loop.unexpected)

theorem step_view (request : Request) (expectedReady : Nat) (machine : Machine)
    (hvalid : message.Wellformed) : request.loop.step expectedReady machine message.view =
      request.loop.onMessage expectedReady machine message := by
  cases message with
  | rowDescription fields =>
    have hparse : parseRowDescription (Message.rowDescription fields).view.payload = .ok _ :=
      parseRowDescription_write hvalid.1 hvalid.2
    rw [Loop.step, hparse]
    rfl
  | dataRow values =>
    have hparse : parseDataRow (Message.dataRow values).view.payload = .ok _ :=
      parseDataRow_write hvalid.1 hvalid.2
    rw [Loop.step, hparse]
    rfl
  | commandComplete tag =>
    have hparse : parseCommandComplete (Message.commandComplete tag).view.payload = .ok _ :=
      parseCommandComplete_write hvalid.1 hvalid.2
    rw [Loop.step, hparse]
    rfl
  | parameterStatus name value =>
    have hparse : parseParameterStatus (Message.parameterStatus name value).view.payload = .ok _ :=
      parseParameterStatus_write hvalid.1 hvalid.2.1 hvalid.2.2
    rw [Loop.step, hparse]
    cases request <;> rfl
  | errorResponse fields =>
    have hparse : parseErrorResponse (Message.errorResponse fields).view.payload = .ok _ :=
      parseErrorResponse_write hvalid.1 hvalid.2
    rw [Loop.step, hparse]
    cases request <;> rfl
  | readyForQuery status =>
    have hparse : parseReadyForQuery (Message.readyForQuery status).view.payload = .ok _ :=
      parseReadyForQuery_write hvalid
    rw [Loop.step, hparse]
    cases request <;> rfl
  | _ => cases request <;> rfl

/-- The first error of a response. -/
def firstError : List Message → Option (List (UInt8 × Bytes))
  | [] => none
  | .errorResponse fields :: _ => some fields
  | _ :: messages => firstError messages

def Message.isReady : Message → Bool
  | .readyForQuery _ => true
  | _ => false

/-- The error that a loop should report, after one that it has already. -/
def pendingError (loop : Loop) (error : Option PostgresError) (messages : List Message) :
    Option PostgresError :=
  error.or ((firstError messages).map fun fields =>
    serverError (ErrorFields.ofList {} [] fields) loop.errorType)

/-- The first error, or as many results as there are boundaries. -/
def Reports (error : Option PostgresError) (expectedReady : Nat)
    (result : Except PostgresError (List PostgresResultSet)) : Prop :=
  match error with
  | some error => result = .error error
  | none => ∃ results, result = .ok results ∧ results.length = expectedReady

theorem onReady_cases (expectedReady : Nat) (machine : Machine) (status : UInt8)
    (hmore : machine.results.length < expectedReady) :
    (machine.results.length + 1 = expectedReady ∧ ∃ response,
      Loop.onReadyForQuery expectedReady machine status = .done response ∧
        Reports machine.error expectedReady response.result) ∨
    (machine.results.length + 1 < expectedReady ∧
      Loop.onReadyForQuery expectedReady machine status = .next { machine with
          client := { machine.client with transactionStatus := status }
          results := machine.results ++ [machine.current], current := {} }) := by
  have hlen : (machine.results ++ [machine.current]).length = machine.results.length + 1 :=
    length_append
  rw [Loop.onReadyForQuery]
  by_cases hdone : machine.results.length + 1 = expectedReady
  · refine .inl ⟨hdone, ?_⟩
    simp only [ge_iff_le]
    rw [if_pos (by omega)]
    cases herr : machine.error with
    | some error => exact ⟨_, rfl, rfl⟩
    | none => exact ⟨_, rfl, _, rfl, hlen.trans hdone⟩
  refine .inr ⟨by omega, ?_⟩
  simp only [ge_iff_le]
  rw [if_neg (by omega)]

section Play

variable (request : Request) {expectedReady : Nat}

/-- The machine of a request. -/
def Request.receiver (expectedReady : Nat) :
    Lib.Receiver MessageView Machine Response PostgresError :=
  request.loop.receiver expectedReady

theorem count_pos_of_ready (h : ∃ before status, messages = before ++ [.readyForQuery status]) :
    0 < messages.countP Message.isReady := by
  obtain ⟨before, status, rfl⟩ := h
  exact List.countP_pos_iff.2 ⟨_, mem_append_right _ (mem_singleton_self _), rfl⟩

section OneMessage

variable {request : Request} {machine : Machine} {message : Message} {messages : List Message}
  (hvalid : message.Wellformed)

include hvalid

theorem play_next {next : Machine}
    (h : request.loop.onMessage expectedReady machine message = .next next) :
    (request.receiver expectedReady).play machine ((message :: messages).map Message.view) =
      (request.receiver expectedReady).play next (messages.map Message.view) := by
  have hstep : (request.receiver expectedReady).step machine message.view = .next next :=
    (step_view request expectedReady machine hvalid).trans h
  rw [map_cons, Lib.Receiver.play, hstep]

theorem play_failed (h : request.loop.onMessage expectedReady machine message = .failed error) :
    (request.receiver expectedReady).play machine ((message :: messages).map Message.view) =
      none := by
  have hstep : (request.receiver expectedReady).step machine message.view = .failed error :=
    (step_view request expectedReady machine hvalid).trans h
  rw [map_cons, Lib.Receiver.play, hstep]

theorem play_done (h : request.loop.onMessage expectedReady machine message = .done response) :
    (request.receiver expectedReady).play machine ((message :: messages).map Message.view) =
      if messages.isEmpty then some response else none := by
  have hstep : (request.receiver expectedReady).step machine message.view = .done response :=
    (step_view request expectedReady machine hvalid).trans h
  rw [map_cons, Lib.Receiver.play, hstep, isEmpty_map]

end OneMessage

variable {request}

theorem knows_of_parsed (h : message.type ∈ [kMsgRowDescription, kMsgDataRow,
    kMsgCommandComplete, kMsgParameterStatus, kMsgErrorResponse, kMsgReadyForQuery]) :
    request.loop.knows message = true :=
  decide_eq_true (.inl (mem_append_left _ h))

/-- A loop on a response: it is done at the end, with the first error if there is one, exactly if it
knows all messages, no columns precede those of a row, and the boundaries are all answered. -/
theorem play_iff {messages : List Message} (hvalid : ∀ message ∈ messages, message.Valid)
    (hfields : machine.current.fieldCount = before + last)
    (hdescribed : Described before last messages)
    (hready : messages = [] ∨ ∃ before status, messages = before ++ [.readyForQuery status])
    (hmore : machine.results.length < expectedReady) :
    (∃ response, (request.receiver expectedReady).play machine (messages.map Message.view) =
        some response ∧
      Reports (pendingError request.loop machine.error messages) expectedReady response.result) ↔
    (∀ message ∈ messages, request.loop.knows message = true) ∧
      OnlyDescription before last messages ∧
      machine.results.length + messages.countP Message.isReady = expectedReady := by
  induction messages generalizing machine before last with
  | nil =>
    refine ⟨fun ⟨_, hplay, _⟩ => absurd hplay nofun, fun ⟨_, _, hcount⟩ => ?_⟩
    exact absurd hcount (Nat.ne_of_lt hmore)
  | cons message messages ih =>
  rw [forall_mem_cons] at hvalid
  obtain ⟨⟨hwellformed, -⟩, hvalid⟩ := hvalid
  obtain ⟨front, status, hlast⟩ := hready.resolve_left (cons_ne_nil _ _)
  have hend : messages = [] ∨ ∃ before status, messages = before ++ [.readyForQuery status] := by
    cases front with
    | nil => exact .inl (List.cons.inj hlast).2
    | cons _ front => exact .inr ⟨front, status, (List.cons.inj hlast).2⟩
  rw [forall_mem_cons]
  -- a message that the loop passes over, or does not know
  have hplain (hmove : request.loop.onMessage expectedReady machine message =
        if request.loop.knows message then .next machine
        else .failed (protocolError request.loop.unexpected))
      (hfirst : firstError (message :: messages) = firstError messages)
      (honly : OnlyDescription before last (message :: messages) =
        OnlyDescription before last messages)
      (hrows : Described before last (message :: messages) = Described before last messages)
      (hother : message.isReady = false) :
      (∃ response, (request.receiver expectedReady).play machine
            ((message :: messages).map Message.view) = some response ∧
        Reports (pendingError request.loop machine.error (message :: messages)) expectedReady
          response.result) ↔
      (request.loop.knows message = true ∧
          ∀ message ∈ messages, request.loop.knows message = true) ∧
        OnlyDescription before last (message :: messages) ∧
        machine.results.length + (message :: messages).countP Message.isReady =
          expectedReady := by
    rw [pendingError, hfirst, honly, countP_cons_of_neg (by rw [hother]; decide)]
    rw [hrows] at hdescribed
    cases hknows : request.loop.knows message with
    | true =>
      rw [hknows, if_pos rfl] at hmove
      rw [play_next hwellformed hmove]
      simp only [true_and]
      exact ih hvalid hfields hdescribed hend hmore
    | false =>
    rw [hknows, if_neg (by decide)] at hmove
    rw [play_failed hwellformed hmove]
    exact ⟨fun ⟨_, hplay, _⟩ => absurd hplay nofun, fun h => absurd h.1.1 nofun⟩
  cases message with
  | rowDescription fields =>
    rw [play_next hwellformed rfl, knows_of_parsed (mem_cons_self ..), eq_self, true_and]
    refine ih hvalid ?_ hdescribed hend hmore
    exact List.length_append.trans (congrArg (· + _) hfields)
  | dataRow values =>
    obtain ⟨hcols, hdescribed⟩ := hdescribed
    have hmove := Loop.onMessage.eq_2 request.loop expectedReady machine values
    rw [hfields] at hmove
    by_cases hbefore : before = 0
    · rw [if_neg (by omega)] at hmove
      rw [play_next hwellformed hmove, knows_of_parsed (mem_cons_of_mem _ (mem_cons_self ..)), eq_self, true_and,
        OnlyDescription, eq_true hbefore, true_and]
      exact ih hvalid hfields hdescribed hend hmore
    rw [if_pos (by omega)] at hmove
    rw [play_failed hwellformed hmove]
    exact ⟨fun ⟨_, hplay, _⟩ => absurd hplay nofun, fun h => absurd h.2.1.1 hbefore⟩
  | commandComplete tag =>
    rw [play_next hwellformed rfl, knows_of_parsed (by simp [Message.type]), eq_self, true_and]
    exact ih hvalid hfields hdescribed hend hmore
  | parameterStatus name value =>
    rw [play_next hwellformed rfl, knows_of_parsed (by simp [Message.type]), eq_self, true_and]
    exact ih hvalid hfields hdescribed hend hmore
  | errorResponse fields =>
    have herr : pendingError request.loop machine.error (.errorResponse fields :: messages) =
        pendingError request.loop (machine.error.or (some (serverError
          (ErrorFields.ofList {} [] fields) request.loop.errorType))) messages := by
      rw [pendingError, pendingError, Option.or_assoc]
      rfl
    rw [herr, play_next hwellformed rfl, knows_of_parsed (by simp [Message.type]), eq_self,
      true_and]
    exact ih hvalid hfields hdescribed hend hmore
  | readyForQuery status =>
    rw [countP_cons_of_pos rfl, knows_of_parsed (by simp [Message.type]), eq_self, true_and]
    rcases onReady_cases expectedReady machine status hmore with
      ⟨hlastReady, response, hdone, hreports⟩ | ⟨hgoes, hnext⟩
    · rw [play_done hwellformed hdone]
      rcases hend with rfl | hmessages
      · refine ⟨fun _ => ⟨fun _ h => absurd h not_mem_nil, trivial, hlastReady⟩, fun _ => ?_⟩
        refine ⟨response, rfl, ?_⟩
        have hnone : pendingError request.loop machine.error [.readyForQuery status] =
            machine.error := Option.or_none
        rw [hnone]
        exact hreports
      have hcount := count_pos_of_ready hmessages
      have hne : messages.isEmpty = false := by
        obtain ⟨before, status, rfl⟩ := hmessages
        simp
      rw [hne]
      exact ⟨fun ⟨_, hplay, _⟩ => absurd hplay nofun, fun h => by omega⟩
    rw [play_next hwellformed hnext]
    have hlen : (machine.results ++ [machine.current]).length = machine.results.length + 1 :=
      length_append
    rw [← Nat.add_assoc, Nat.add_right_comm, ← hlen]
    refine ih hvalid rfl hdescribed hend ?_
    rw [← hlen] at hgoes
    exact hgoes
  | _ => exact hplain rfl rfl rfl rfl rfl

end Play

/-! ## Whole responses -/

/-- A client takes a response as it should: the call comes to its end with the first error of the
response, or else with its results, and leaves what comes after the last ReadyForQuery. -/
def Takes (request : Request) (client : Client) (channel : Lib.Channel) (messages : List Message)
    (after : List MessageView) : Prop :=
  ∃ response rest,
    (request.receiver request.expectedReady).run { client } channel = .done response rest ∧
      Reports (pendingError request.loop none messages) request.expectedReady response.result ∧
      rest.unread = after.flatMap MessageView.wire

theorem takes_iff_play {after : List MessageView}
    (hholds : channel.Holds framing capacity (messages.map Message.view ++ after)) :
    Takes request client channel messages after ↔
      (∃ response, (request.receiver request.expectedReady).play { client }
          (messages.map Message.view) = some response ∧
        Reports (pendingError request.loop none messages) request.expectedReady response.result) ∧
      ∀ message ∈ messages, message.view.wire.length ≤ capacity := by
  have hdone (response : Response) :
      (∃ rest, (request.receiver request.expectedReady).run { client } channel =
          .done response rest ∧ rest.unread = after.flatMap MessageView.wire) ↔
        (request.receiver request.expectedReady).play { client } (messages.map Message.view) =
            some response ∧
          ∀ view ∈ messages.map Message.view, view.wire.length ≤ capacity :=
    Lib.Receiver.run_done_iff hholds
  rw [forall_mem_map] at hdone
  constructor
  · rintro ⟨response, rest, hrun, hreports, hunread⟩
    obtain ⟨hplay, hfits⟩ := (hdone response).1 ⟨rest, hrun, hunread⟩
    exact ⟨⟨response, hplay, hreports⟩, hfits⟩
  rintro ⟨⟨response, hplay, hreports⟩, hfits⟩
  obtain ⟨rest, hrun, hunread⟩ := (hdone response).2 ⟨hplay, hfits⟩
  exact ⟨response, rest, hrun, hreports, hunread⟩

theorem Conforms.play_iff {request : Request}
    (H : Conforms request.commands messages) (hsent : 0 < request.expectedReady) (client : Client) :
    (∃ response, (request.receiver request.expectedReady).play { client }
          (messages.map Message.view) = some response ∧
        Reports (pendingError request.loop none messages) request.expectedReady response.result) ↔
      (∀ message ∈ messages, request.loop.knows message = true) ∧ OnlyDescription 0 0 messages ∧
        messages.countP Message.isReady = request.expectedReady := by
  have hdescribed : Described 0 0 messages := H.serves.described ⟨rfl, rfl⟩
  rw [← Nat.zero_add (messages.countP Message.isReady)]
  exact Postgres.play_iff H.valid rfl hdescribed (.inr H.ready) hsent

/-- A loop takes a response, in whatever reads it comes, if and only if it knows every message, no
columns were announced before those of a row, every boundary is answered, and each message fits the
ring buffer. -/
theorem takes_iff (request : Request) (hsent : 0 < request.expectedReady) (messages : List Message)
    (hconforms : Conforms request.commands messages) (after : List MessageView) (client : Client)
    (capacity : Nat) (channel : Lib.Channel)
    (hholds : channel.Holds framing capacity (messages.map Message.view ++ after)) :
    Takes request client channel messages after ↔
      (∀ message ∈ messages, request.loop.knows message = true) ∧ OnlyDescription 0 0 messages ∧
        messages.countP Message.isReady = request.expectedReady ∧
        ∀ message ∈ messages, message.view.wire.length ≤ capacity := by
  rw [takes_iff_play hholds, hconforms.play_iff hsent, and_assoc, and_assoc]

/-! ## One statement and two -/

/-- A channel on which these messages come in one read. -/
def channelOf (messages : List Message) : Lib.Channel where
  capacity := 8192
  buffer := []
  incoming := (messages.map Message.view).flatMap MessageView.wire
  reads := fun _ => 8192

theorem channelOf_holds (hvalid : ∀ message ∈ messages, message.Valid) :
    (channelOf messages).Holds framing 8192 (messages.map Message.view ++ []) where
  capacity_eq := rfl
  capacity_pos := by decide
  buffer_le := Nat.zero_le _
  unread_eq := by
    rw [append_nil]
    rfl
  valid := by
    rw [append_nil, forall_mem_map]
    exact fun message hmsg => (hvalid message hmsg).length

def intColumn : RowDescriptionField where
  name := ascii "n"
  tableOid := 0
  columnIndex := 0
  typeOid := 23
  typeSize := 4
  typeModifier := -1
  format := 0

/-- The messages for a statement with one row. -/
def oneRow : List Message :=
  [.rowDescription [intColumn], .dataRow [some (ascii "1")], .commandComplete (ascii "SELECT 1")]

def oneStatement : List Message := oneRow ++ [.readyForQuery 0x49]

def twoStatements : List Message := oneRow ++ (oneRow ++ [.readyForQuery 0x49])

theorem oneRow_valid : ∀ message ∈ oneRow, message.Valid := by
  have hfield : ∀ field ∈ [intColumn], field.Valid := by
    intro field hfield
    rw [List.mem_singleton.1 hfield]
    exact ⟨by decide +kernel, by decide, by decide, by decide, by decide, by decide, .inl rfl⟩
  have hlen : ∀ message ∈ oneRow,
      kLengthFieldSize + message.payload.length ≤ 2 ^ 31 - 1 := by decide +kernel
  intro message hmsg
  refine ⟨?_, hlen message hmsg⟩
  simp only [oneRow, mem_cons, not_mem_nil, or_false] at hmsg
  rcases hmsg with rfl | rfl | rfl
  · exact ⟨by decide, hfield⟩
  · refine ⟨by decide, fun value hval => ?_⟩
    rw [mem_singleton, Option.some.injEq] at hval
    rw [hval]
    decide +kernel
  exact ⟨by decide +kernel, by decide +kernel⟩

theorem ready_valid : (Message.readyForQuery 0x49).Valid :=
  ⟨.inl rfl, (by decide : kLengthFieldSize + 1 ≤ 2 ^ 31 - 1)⟩

theorem Serves.oneRow {described : Option Nat}
    (H : Serves (.statements (some 1)) commands messages) :
    Serves (.statements described) commands (Postgres.oneRow ++ messages) :=
  .answers .statementRows (.answers (.statementRow rfl) (.answers .statementRowsEnd H))

theorem serves_ready : Serves (.statements described) [] [.readyForQuery status] :=
  .answers .queryReady (.nil fun _ h => absurd h not_mem_nil)

theorem oneStatement_conforms : Conforms [.query] oneStatement where
  serves := .begins .query serves_ready.oneRow
  ready := ⟨oneRow, 0x49, rfl⟩
  valid message hmsg := by
    rcases List.mem_append.1 hmsg with hmsg | hmsg
    · exact oneRow_valid message hmsg
    exact List.mem_singleton.1 hmsg ▸ ready_valid

theorem twoStatements_conforms : Conforms [.query] twoStatements where
  serves := .begins .query serves_ready.oneRow.oneRow
  ready := ⟨oneRow ++ oneRow, 0x49, (append_assoc ..).symm⟩
  valid message hmsg := by
    rcases List.mem_append.1 hmsg with hmsg | hmsg
    · exact oneRow_valid message hmsg
    rcases List.mem_append.1 hmsg with hmsg | hmsg
    · exact oneRow_valid message hmsg
    exact List.mem_singleton.1 hmsg ▸ ready_valid

/-- A query of one statement. -/
theorem takes_oneStatement : Takes .query {} (channelOf oneStatement) oneStatement [] :=
  (takes_iff .query (by decide) oneStatement oneStatement_conforms [] {} 8192
    (channelOf oneStatement) (channelOf_holds oneStatement_conforms.valid)).2
      ⟨by decide +kernel, ⟨rfl, trivial⟩, by decide, by decide +kernel⟩

/-- A row of the second statement is measured against the columns of both. -/
theorem not_takes_twoStatements :
    Conforms Request.query.commands twoStatements ∧
      ¬ Takes .query {} (channelOf twoStatements) twoStatements [] := by
  have hconforms : Conforms Request.query.commands twoStatements := twoStatements_conforms
  refine ⟨hconforms, fun H => ?_⟩
  obtain ⟨hplay, -⟩ := (takes_iff_play (channelOf_holds hconforms.valid)).1 H
  have honly := ((hconforms.play_iff (by decide) {}).1 hplay).2.1
  exact absurd honly.2.1 (by decide)

end Galay.Postgres
