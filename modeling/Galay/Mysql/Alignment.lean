import Galay.Mysql.Answers

/-!
# Answers and the calls they are for

A client makes calls one after the other over one connection. Its calls stay in step with the
answers as long as every answer has one part that the ring buffer can hold, and in a batch no answer
but the last is an error (`alignedRun_of_plain`). The other parts of an answer, and the answers behind
an error, stay in the connection and are taken for the answers to the next calls.
-/

namespace Galay.Mysql

open List

/-- A payload that is too long for one packet is sent in several. -/
def frames (payload : Bytes) : List Bytes :=
  if _h : payload.length < MYSQL_MAX_PACKET_SIZE then
    [payload]
  else
    payload.take MYSQL_MAX_PACKET_SIZE :: frames (payload.drop MYSQL_MAX_PACKET_SIZE)
termination_by payload.length
decreasing_by
  have hpos : 0 < MYSQL_MAX_PACKET_SIZE := by decide
  rw [List.length_drop]
  omega

/-- The answer to a command: its parts, and the packets they come in. -/
structure Reply (capabilities : Nat) where
  parts : List Part
  packets : List Packet
  valid : ∀ part ∈ parts, part.Valid (isModern capabilities)
  more : ∃ before last, parts = before ++ [last] ∧ last.moreResults = false ∧
    ∀ part ∈ before, part.moreResults = true
  payload_eq : packets.map (·.payload) =
    parts.flatMap fun part => (part.payloads (isModern capabilities)).flatMap frames

/-- Whether a part reports an error. -/
def Part.isError : Part → Bool
  | .err _ | .cut .. => true
  | .ok _ | .table .. => false

namespace Reply

variable {capabilities : Nat}

def wire (reply : Reply capabilities) : Bytes := reply.packets.flatMap Packet.wire

/-- What a call with one result should return. -/
def result (reply : Reply capabilities) : Except MysqlError MysqlResultSet :=
  match reply.parts with
  | [] => .ok {}
  | part :: _ => part.result

def isError (reply : Reply capabilities) : Bool := reply.parts.any Part.isError

/-- The answer has one part, and its packets fit the ring buffer. -/
structure Plain (reply : Reply capabilities) : Prop where
  single : reply.parts.length = 1
  fits : ∀ packet ∈ reply.packets, packet.size ≤ MysqlClient.kRecvBufferCapacity

end Reply

/-- A call, with the answers its commands get if they are sent. -/
inductive Call (capabilities : Nat)
  | query (sql : Bytes) (reply : Reply capabilities)
  | batch (commands : List (Bytes × Reply capabilities))
  | pipeline (sqls : List (Bytes × Reply capabilities))

section Calls

variable {capabilities : Nat}

/-- The commands of a pipeline as `batch` gets them. -/
def pipelined (sqls : List (Bytes × Reply capabilities)) : List (Bytes × Reply capabilities) :=
  sqls.map fun (sql, reply) => (encodeQuery sql 0, reply)

def withWires (commands : List (Bytes × Reply capabilities)) : List (Bytes × Bytes) :=
  commands.map fun (command, reply) => (command, reply.wire)

namespace Call

def run (client : MysqlClient) : Call capabilities → Outcome Connection (List MysqlResultSet)
  | query sql reply => (client.query sql reply.wire).bind fun rs rest => .done [rs] rest
  | batch commands => client.batch (withWires commands)
  | pipeline sqls => client.pipeline (withWires sqls)

/-- What a batch should return: the results of its commands, or the error of the first that has
one. -/
def expectedBatch (commands : List (Bytes × Reply capabilities)) :
    Except MysqlError (List MysqlResultSet) :=
  if ∃ command ∈ commands, command.1 = [] then
    .error ⟨.MYSQL_ERROR_INVALID_PARAM, 0, ascii "Batch command encoded payload is empty"⟩
  else
    (commands.map (·.2)).mapM Reply.result

def expected : Call capabilities → Except MysqlError (List MysqlResultSet)
  | query sql reply =>
    if encodeQuery sql 0 = [] then
      .error ⟨.MYSQL_ERROR_INVALID_PARAM, 0, ascii "MySQL query exceeds single-packet limit"⟩
    else
      reply.result.map ([·])
  | batch commands => expectedBatch commands
  | pipeline sqls => expectedBatch (pipelined sqls)

/-- The answers that the client can take: plain ones, and no error before the last. -/
structure PlainBatch (commands : List (Bytes × Reply capabilities)) : Prop where
  plain : ∀ command ∈ commands, command.2.Plain
  error : ∀ reply ∈ (commands.map (·.2)).dropLast, reply.isError = false

/-- What is asked of the answers to a call. Commands that are not sent get none. -/
def Plain : Call capabilities → Prop
  | query sql reply => encodeQuery sql 0 ≠ [] → reply.Plain
  | batch commands => (∀ command ∈ commands, command.1 ≠ []) → PlainBatch commands
  | pipeline sqls => (∀ command ∈ pipelined sqls, command.1 ≠ []) → PlainBatch (pipelined sqls)

end Call

/-- Every call returns the results of its own commands and leaves nothing of their answers. -/
inductive AlignedRun : Connection → List (Call capabilities) → Prop
  | nil {connection : Connection} : AlignedRun connection []
  | cons {connection next : Connection} {call : Call capabilities} {calls : List (Call capabilities)}
    (hrun : call.run ⟨connection, capabilities⟩ = ended call.expected next)
    (hunread : next.unread = []) (htail : AlignedRun next calls) :
    AlignedRun connection (call :: calls)

end Calls

/-! ## Packets of an answer -/

theorem frames_length (payload : Bytes) :
    ∀ frame ∈ frames payload, frame.length ≤ MYSQL_MAX_PACKET_SIZE := by
  fun_induction frames payload with
  | case1 payload hshort =>
    intro frame hframe
    rw [List.mem_singleton.1 hframe]
    exact Nat.le_of_lt hshort
  | case2 payload hlong ih =>
  intro frame hframe
  rcases List.mem_cons.1 hframe with rfl | hframe
  · rw [length_take]
    exact Nat.min_le_left _ _
  exact ih frame hframe

/-- Payloads that came in short frames came in one each. -/
theorem flatMap_frames {payloads : List Bytes}
    (hshort : ∀ frame ∈ payloads.flatMap frames, frame.length < MYSQL_MAX_PACKET_SIZE) :
    payloads.flatMap frames = payloads := by
  induction payloads with
  | nil => rfl
  | cons payload payloads ih =>
  rw [flatMap_cons] at hshort
  have hrest := ih fun frame hframe => hshort frame (mem_append_right _ hframe)
  have hone : frames payload = [payload] := by
    rw [frames]
    split
    · rfl
    rename_i hlong
    have hfirst := hshort (payload.take MYSQL_MAX_PACKET_SIZE) (by
      apply mem_append_left
      rw [frames, dif_neg hlong]
      exact mem_cons_self ..)
    rw [length_take] at hfirst
    omega
  rw [flatMap_cons, hrest, hone, singleton_append]

namespace Reply

variable {capabilities : Nat} (reply : Reply capabilities)

theorem payload_lt : ∀ packet ∈ reply.packets, packet.payload.length < 2 ^ 24 := by
  intro packet hpkt
  have hmem : packet.payload ∈ reply.packets.map (·.payload) := mem_map_of_mem hpkt
  rw [reply.payload_eq] at hmem
  obtain ⟨part, -, hpart⟩ := List.mem_flatMap.1 hmem
  obtain ⟨payload, -, hframe⟩ := List.mem_flatMap.1 hpart
  exact Nat.lt_of_le_of_lt (frames_length payload _ hframe) (by decide)

variable {reply}

theorem Plain.carry (H : reply.Plain) : ∃ part, reply.parts = [part] ∧
    part.Valid (isModern capabilities) ∧
    Carry MysqlClient.kRecvBufferCapacity reply.packets (part.payloads (isModern capabilities)) := by
  obtain ⟨part, hpart⟩ := List.length_eq_one_iff.1 H.single
  have hpayloads := reply.payload_eq
  rw [hpart, flatMap_singleton] at hpayloads
  refine ⟨part, hpart, reply.valid part (by rw [hpart]; exact mem_singleton_self _), ?_, H.fits⟩
  rw [hpayloads]
  apply flatMap_frames
  intro frame hframe
  rw [← hpayloads] at hframe
  obtain ⟨packet, hpkt, rfl⟩ := List.mem_map.1 hframe
  have hfits := H.fits packet hpkt
  rw [Packet.size] at hfits
  have hcap : MysqlClient.kRecvBufferCapacity < MYSQL_MAX_PACKET_SIZE := by decide
  omega

theorem receive_plain (H : reply.Plain) (heof : capabilities &&& CLIENT_DEPRECATE_EOF = 0)
    (rest : List Packet) :
    receiveResultSet (packetSource MysqlClient.kRecvBufferCapacity) capabilities
      (reply.packets ++ rest) = ended reply.result rest := by
  obtain ⟨part, hparts, hvalid, hcarry⟩ := H.carry
  rw [receive_part hvalid hcarry (by decide) heof, result, hparts]

theorem Plain.isError_of_result (H : reply.Plain)
    (herr : reply.result = .error error) : reply.isError = true := by
  obtain ⟨part, hparts, -⟩ := H.carry
  rw [result, hparts] at herr
  rw [isError, hparts, any_cons, any_nil, Bool.or_false]
  cases part with
  | ok => cases herr
  | table => cases herr
  | err => rfl
  | cut => rfl

end Reply

/-! ## Runs -/

section Runs

variable {capabilities : Nat} (heof : capabilities &&& CLIENT_DEPRECATE_EOF = 0)

include heof

/-- The answers of a batch, read one after the other. -/
theorem receiveResultSets_plain {replies : List (Reply capabilities)}
    (hplain : ∀ reply ∈ replies, reply.Plain)
    (herr : ∀ reply ∈ replies.dropLast, reply.isError = false) (results : List MysqlResultSet) :
    receiveResultSets (packetSource MysqlClient.kRecvBufferCapacity) capabilities replies.length
      results (replies.flatMap (·.packets)) =
        ended ((replies.mapM Reply.result).map (results ++ ·)) [] := by
  induction replies generalizing results with
  | nil =>
    rw [length_nil, receiveResultSets, mapM_nil]
    show _ = Outcome.done (results ++ []) []
    rw [append_nil]
    rfl
  | cons reply replies ih =>
  have hfirst := hplain reply (mem_cons_self ..)
  rw [length_cons, receiveResultSets, flatMap_cons, Reply.receive_plain hfirst heof, mapM_cons]
  cases hres : reply.result with
  | error error =>
    -- an error ends the batch, so it has to be the last answer
    cases replies with
    | nil => rfl
    | cons other replies =>
    have hfine := herr reply (mem_cons_self ..)
    rw [hfirst.isError_of_result hres] at hfine
    cases hfine
  | ok rs =>
  have hrest : ∀ other ∈ replies.dropLast, other.isError = false := by
    intro other hother
    apply herr
    cases replies with
    | nil => exact absurd hother not_mem_nil
    | cons next replies => exact mem_cons_of_mem _ hother
  have htail := ih (fun other hother => hplain other (mem_cons_of_mem _ hother)) hrest
    (results ++ [rs])
  show receiveResultSets _ _ _ _ _ = _
  rw [htail]
  cases replies.mapM Reply.result with
  | error error => rfl
  | ok others =>
  show Outcome.done (results ++ [rs] ++ others) [] = Outcome.done (results ++ (rs :: others)) []
  rw [append_assoc, singleton_append]

end Runs

/-- An end that is related to one that leaves nothing. -/
theorem Outcome.Related.ended {x : Outcome Connection α} {result : Except MysqlError α}
    (H : Outcome.Related (fun connection packets => connection.Holds capacity packets) x
      (Mysql.ended result [])) : ∃ next, x = Mysql.ended result next ∧ next.Holds capacity [] := by
  cases result with
  | ok value =>
    cases H with
    | done h => exact ⟨_, rfl, h⟩
  | error error =>
  cases H with
  | failed h => exact ⟨_, rfl, h⟩

theorem Connection.Holds.sent {capacity : Nat}
    (H : connection.Holds capacity []) (capabilities : Nat)
    (hpackets : ∀ packet ∈ packets, packet.payload.length < 2 ^ 24) :
    (MysqlClient.sent ⟨connection, capabilities⟩ (packets.flatMap Packet.wire)).Holds capacity
      packets where
  __ := H
  unread_eq := by
    have hunread := H.unread_eq
    rw [Connection.unread, flatMap_nil] at hunread
    rw [MysqlClient.sent, Connection.unread]
    simp only
    rw [← append_assoc, hunread, nil_append]
  size_lt := hpackets

namespace Call

variable {capabilities : Nat} {connection : Connection}
  (heof : capabilities &&& CLIENT_DEPRECATE_EOF = 0)
  (H : connection.Holds MysqlClient.kRecvBufferCapacity [])

include heof H

theorem query_plain {reply : Reply capabilities} (hsql : encodeQuery sql 0 ≠ [])
    (hplain : reply.Plain) :
    ∃ next, MysqlClient.query ⟨connection, capabilities⟩ sql reply.wire = ended reply.result next ∧
      next.Holds MysqlClient.kRecvBufferCapacity [] := by
  have hrelated := (H.sent capabilities reply.payload_lt).receiveResultSet capabilities
  have hpackets := Reply.receive_plain hplain heof []
  rw [append_nil] at hpackets
  rw [hpackets] at hrelated
  rw [MysqlClient.query]
  simp only
  rw [if_neg hsql]
  exact hrelated.ended

theorem batch_plain {commands : List (Bytes × Reply capabilities)}
    (hplain : (∀ command ∈ commands, command.1 ≠ []) → PlainBatch commands) :
    ∃ next, MysqlClient.batch ⟨connection, capabilities⟩ (withWires commands) =
        ended (expectedBatch commands) next ∧
      next.Holds MysqlClient.kRecvBufferCapacity [] := by
  by_cases hempty : commands = []
  · subst hempty
    exact ⟨connection, rfl, H⟩
  have hwires : withWires commands ≠ [] := fun hnil => hempty (List.map_eq_nil_iff.1 hnil)
  have hinv : (∃ command ∈ withWires commands, command.1 = []) ↔
      ∃ command ∈ commands, command.1 = [] := by
    constructor
    · rintro ⟨_, hmem, hnil⟩
      obtain ⟨command, hcmd, rfl⟩ := List.mem_map.1 hmem
      exact ⟨command, hcmd, hnil⟩
    rintro ⟨command, hcmd, hnil⟩
    exact ⟨_, mem_map_of_mem hcmd, hnil⟩
  rw [MysqlClient.batch, if_neg hwires, expectedBatch]
  by_cases hbad : ∃ command ∈ commands, command.1 = []
  · rw [if_pos (hinv.2 hbad), if_pos hbad]
    exact ⟨connection, rfl, H⟩
  rw [if_neg (fun h => hbad (hinv.1 h)), if_neg hbad]
  obtain ⟨hreps, herr⟩ := hplain fun command hcmd hnil => hbad ⟨command, hcmd, hnil⟩
  have hplainReplies : ∀ reply ∈ commands.map (·.2), reply.Plain := by
    intro reply hreply
    obtain ⟨command, hcmd, rfl⟩ := List.mem_map.1 hreply
    exact hreps command hcmd
  have hsizes : ∀ packet ∈ (commands.map (·.2)).flatMap (·.packets),
      packet.payload.length < 2 ^ 24 := by
    intro packet hpkt
    obtain ⟨reply, -, hpkt⟩ := List.mem_flatMap.1 hpkt
    exact reply.payload_lt packet hpkt
  have hsent : (withWires commands).flatMap (·.2) =
      ((commands.map (·.2)).flatMap (·.packets)).flatMap Packet.wire := by
    rw [withWires, flatMap_map, flatMap_map, flatMap_assoc]
    rfl
  have hrelated := (H.sent capabilities hsizes).receiveResultSets capabilities commands.length []
  have hpackets := receiveResultSets_plain heof hplainReplies herr []
  rw [length_map] at hpackets
  rw [hpackets] at hrelated
  obtain ⟨next, hnext, hholds⟩ := hrelated.ended
  refine ⟨next, ?_, hholds⟩
  rw [hsent, withWires, length_map, hnext]
  cases (commands.map (·.2)).mapM Reply.result <;> rfl

theorem run_plain {call : Call capabilities} (hplain : call.Plain) :
    ∃ next, call.run ⟨connection, capabilities⟩ = ended call.expected next ∧
      next.Holds MysqlClient.kRecvBufferCapacity [] := by
  cases call with
  | query sql reply =>
    rw [run, expected]
    by_cases hsql : encodeQuery sql 0 = []
    · refine ⟨connection, ?_, H⟩
      rw [MysqlClient.query]
      simp only
      rw [if_pos hsql, if_pos hsql]
      rfl
    obtain ⟨next, hnext, hholds⟩ := query_plain heof H hsql (hplain hsql)
    refine ⟨next, ?_, hholds⟩
    rw [hnext, if_neg hsql]
    cases reply.result <;> rfl
  | batch commands => exact batch_plain heof H hplain
  | pipeline sqls =>
  obtain ⟨next, hnext, hholds⟩ := batch_plain heof H hplain
  refine ⟨next, ?_, hholds⟩
  rw [run, MysqlClient.pipeline, expected, ← hnext]
  by_cases hempty : sqls = []
  · subst hempty
    rfl
  have hwires : withWires sqls ≠ [] := fun hnil => hempty (List.map_eq_nil_iff.1 hnil)
  rw [if_neg hwires, withWires, withWires, pipelined, map_map, map_map]
  rfl

end Call

theorem alignedRun_of_holds (heof : capabilities &&& CLIENT_DEPRECATE_EOF = 0)
    {calls : List (Call capabilities)} (hplain : ∀ call ∈ calls, call.Plain)
    (H : connection.Holds MysqlClient.kRecvBufferCapacity []) : AlignedRun connection calls := by
  induction calls generalizing connection with
  | nil => exact .nil
  | cons call calls ih =>
  obtain ⟨next, hrun, hnext⟩ := Call.run_plain heof H (hplain call (mem_cons_self ..))
  exact .cons hrun hnext.unread_eq
    (ih (fun other hother => hplain other (mem_cons_of_mem _ hother)) hnext)

/-- A connection never speaks the dialect without EOF packets. -/
theorem negotiate_eof (withDatabase : Bool) (serverCapabilities : Nat) :
    negotiate withDatabase serverCapabilities &&& CLIENT_DEPRECATE_EOF = 0 := by
  rw [negotiate, Nat.land_assoc, Nat.land_comm serverCapabilities, ← Nat.land_assoc]
  cases withDatabase
  · exact Nat.zero_and _
  exact Nat.zero_and _

/-- A run whose answers the client can all take stays aligned. -/
theorem alignedRun_of_plain (reads : Nat → Nat) (withDatabase : Bool) (serverCapabilities : Nat)
    (calls : List (Call (negotiate withDatabase serverCapabilities)))
    (hplain : ∀ call ∈ calls, call.Plain) :
    AlignedRun (MysqlClient.connected reads withDatabase serverCapabilities).connection calls :=
  alignedRun_of_holds (negotiate_eof withDatabase serverCapabilities) hplain
    { capacity_eq := rfl, capacity_pos := by decide, buffer_le := Nat.zero_le _, unread_eq := rfl
      size_lt := fun _ hpkt => absurd hpkt not_mem_nil }

/-! ## Runs of two calls -/

theorem flatMap_frames_of_lt {payloads : List Bytes}
    (hshort : ∀ payload ∈ payloads, payload.length < MYSQL_MAX_PACKET_SIZE) :
    payloads.flatMap frames = payloads := by
  induction payloads with
  | nil => rfl
  | cons payload payloads ih =>
  rw [flatMap_cons, frames, dif_pos (hshort payload (mem_cons_self ..)),
    ih fun other hother => hshort other (mem_cons_of_mem _ hother), singleton_append]

/-- An answer of parts whose payloads are short. -/
def Reply.ofParts {capabilities : Nat} (parts : List Part)
    (valid : ∀ part ∈ parts, part.Valid (isModern capabilities))
    (more : ∃ before last, parts = before ++ [last] ∧ last.moreResults = false ∧
      ∀ part ∈ before, part.moreResults = true)
    (hshort : ∀ payload ∈ parts.flatMap (Part.payloads (isModern capabilities)),
      payload.length < MYSQL_MAX_PACKET_SIZE) : Reply capabilities where
  parts
  packets := (parts.flatMap (Part.payloads (isModern capabilities))).map fun payload => ⟨1, payload⟩
  valid
  more
  payload_eq := by
    rw [List.map_map, ← List.flatMap_assoc, flatMap_frames_of_lt hshort]
    exact List.map_id _

/-- What a client and a server agree on that offers everything. -/
def agreed : Nat := negotiate false 0xFFFFFFFF

def okPart : Part := .ok { affectedRows := 1, lastInsertId := 0, statusFlags := 0x0002 }

def okMorePart : Part := .ok { affectedRows := 1, lastInsertId := 0, statusFlags := 0x000A }

def errPart : Part :=
  .err { sqlState := ascii "42000", errorMessage := ascii "syntax", errorCode := 1064 }

theorem okPart_valid : okPart.Valid (isModern agreed) :=
  ⟨by decide, by decide, by decide, by decide, fun hold => absurd hold (by decide)⟩

theorem okMorePart_valid : okMorePart.Valid (isModern agreed) :=
  ⟨by decide, by decide, by decide, by decide, fun hold => absurd hold (by decide)⟩

theorem errPart_valid : errPart.Valid (isModern agreed) := ⟨by decide, fun _ => by decide⟩

/-- The answer to one statement. -/
def okReply : Reply agreed :=
  .ofParts [okPart] (fun _ hpart => List.mem_singleton.1 hpart ▸ okPart_valid)
    ⟨[], okPart, rfl, by decide, fun _ hpart => absurd hpart List.not_mem_nil⟩ (by decide +kernel)

def errReply : Reply agreed :=
  .ofParts [errPart] (fun _ hpart => List.mem_singleton.1 hpart ▸ errPart_valid)
    ⟨[], errPart, rfl, by decide, fun _ hpart => absurd hpart List.not_mem_nil⟩ (by decide +kernel)

/-- The answer to two statements in one query. -/
def twoResults : Reply agreed :=
  .ofParts [okMorePart, okPart]
    (fun _ hpart => by
      rcases List.mem_cons.1 hpart with rfl | hpart
      · exact okMorePart_valid
      · exact List.mem_singleton.1 hpart ▸ okPart_valid)
    ⟨[okMorePart], okPart, rfl, by decide, fun _ hpart => List.mem_singleton.1 hpart ▸ by decide⟩
    (by decide +kernel)

/-- A query and a batch whose last command fails. -/
theorem alignedRun_query_batch :
    AlignedRun (MysqlClient.connected (fun _ => 7) false 0xFFFFFFFF).connection
      [Call.query (ascii "SELECT 1") okReply,
        Call.batch [(encodeQuery (ascii "SELECT 1") 0, okReply),
          (encodeQuery (ascii "SELEC") 0, errReply)]] := by
  have hok : okReply.Plain := ⟨rfl, by decide +kernel⟩
  have herr : errReply.Plain := ⟨rfl, by decide +kernel⟩
  apply alignedRun_of_plain (fun _ => 7) false 0xFFFFFFFF
  intro call hcall
  rcases List.mem_cons.1 hcall with rfl | hcall
  · exact fun _ => hok
  rw [List.mem_singleton.1 hcall]
  refine fun _ => ⟨fun command hcmd => ?_, fun reply hreply => ?_⟩
  · rcases List.mem_cons.1 hcmd with rfl | hcmd
    · exact hok
    rw [List.mem_singleton.1 hcmd]
    exact herr
  rw [List.mem_singleton.1 hreply]
  rfl

theorem rest_ended (result : Except MysqlError α) (rest : σ) : (ended result rest).rest = rest := by
  cases result <;> rfl

/-- The second result of a query is there when the next call looks for its answer. -/
theorem not_alignedRun_twoResults :
    ¬ AlignedRun (MysqlClient.connected (fun _ => 7) false 0xFFFFFFFF).connection
      [Call.query (ascii "SELECT 1; SELECT 2") twoResults, Call.query (ascii "SELECT 3") okReply] := by
  intro H
  cases H with
  | cons hrun hunread _ =>
  have hleft : ((Call.query (ascii "SELECT 1; SELECT 2") twoResults).run
      (MysqlClient.connected (fun _ => 7) false 0xFFFFFFFF)).rest.unread ≠ [] := by
    decide +kernel
  have hrest := congrArg Outcome.rest hrun
  rw [rest_ended] at hrest
  rw [← hrest] at hunread
  exact hleft hunread

end Galay.Mysql
