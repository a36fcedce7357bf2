import Galay.Mysql.Awaitable
import Galay.Mysql.Packets

/-!
# The awaitable client against the blocking one

Both clients are given the same packets. The machine of the awaitable client is followed packet by
packet (`feed`), and what it still has to do is what the blocking client would do from there
(`Machine.blocking`). They come to the same end as long as no packet is empty, none announces a
number of columns that the machine takes amiss, and the ring buffers hold them all.
-/

namespace Galay.Mysql

open List

namespace Awaitable

variable (awaitable : Awaitable) (expectedResults capabilities maxFields : Nat)

/-- The machine on packets in a list. -/
def feed (capacity : Nat) (machine : Machine) (packets : List Packet) :
    Outcome (List Packet) Finish :=
  if machine.results.length ≥ expectedResults then
    .done (.results machine.results) packets
  else
    match packets with
    | [] => .waits []
    | packet :: packets =>
      if packet.size ≤ capacity then
        match awaitable.step expectedResults capabilities maxFields machine packet.payload
            (packet.payload.headD 0) with
        | .next machine => feed capacity machine packets
        | .failed error => .failed error packets
        | .thrown => .done .thrown (packet :: packets)
      else
        .failed ⟨.MYSQL_ERROR_RECV, 0, ascii awaitable.noSpace⟩ (packet :: packets)

/-- What the machine can take in a phase as the blocking client does. -/
structure Sound (limit : Nat) (machine : Machine) (packet : Packet) : Prop where
  fits : packet.size ≤ limit
  payload_ne : packet.payload ≠ []
  columns : machine.phase = .ReceivingHeader → packet.payload.headD 0 ≠ 0xFF →
    packet.payload.headD 0 ≠ 0x00 → ∀ {columnCount consumed},
      readLenEncInt packet.payload = .ok (columnCount, consumed) →
        0 < columnCount ∧ columnCount ≤ maxFields
  info : machine.phase = .ReceivingHeader → packet.payload.headD 0 = 0x00 →
    awaitable.keepsInfo = true

/-- Every packet that the machine takes is sound. -/
def SoundRun (limit : Nat) (machine : Machine) : List Packet → Prop
  | [] => True
  | packet :: packets => machine.results.length < expectedResults →
    awaitable.Sound maxFields limit machine packet ∧
      ∀ next, awaitable.step expectedResults capabilities maxFields machine packet.payload
        (packet.payload.headD 0) = .next next → SoundRun limit next packets

/-- Every packet that the machine takes has a payload. -/
def PayloadRun (machine : Machine) : List Packet → Prop
  | [] => True
  | packet :: packets => machine.results.length < expectedResults →
    packet.payload ≠ [] ∧
      ∀ next, awaitable.step expectedResults capabilities maxFields machine packet.payload
        (packet.payload.headD 0) = .next next → PayloadRun next packets

theorem SoundRun.payloadRun {awaitable : Awaitable} {expectedResults capabilities maxFields : Nat}
    (H : awaitable.SoundRun expectedResults capabilities maxFields limit machine packets) :
    awaitable.PayloadRun expectedResults capabilities maxFields machine packets := by
  induction packets generalizing machine with
  | nil => trivial
  | cons packet packets ih =>
  intro hmore
  obtain ⟨hpkt, hnext⟩ := H hmore
  exact ⟨hpkt.payload_ne, fun next hstep => ih (hnext next hstep)⟩

end Awaitable

/-! ## From bytes to packets -/

section Bytes

open Awaitable

variable {awaitable : Awaitable} {expectedResults capabilities maxFields : Nat}
  {beyond : Bytes → UInt8} {machine : Machine} {connection : Connection}

theorem run_of_complete (h : expectedResults ≤ machine.results.length) :
    awaitable.run expectedResults capabilities maxFields beyond machine connection =
      .done (.results machine.results) connection := by
  rw [Awaitable.run, tryParseFromRingBuffer, if_pos h]

theorem run_of_incomplete (h : machine.results.length < expectedResults)
    (hinc : extractPacket connection.buffer = .error .Incomplete) :
    awaitable.run expectedResults capabilities maxFields beyond machine connection =
      if connection.buffer.length ≥ connection.capacity then
        .failed ⟨.MYSQL_ERROR_RECV, 0, ascii awaitable.noSpace⟩ connection
      else if connection.incoming = [] then
        .waits connection
      else
        awaitable.run expectedResults capabilities maxFields beyond machine connection.read := by
  have hparse : awaitable.tryParseFromRingBuffer expectedResults capabilities maxFields beyond
      machine connection.buffer = .more machine connection.buffer := by
    rw [tryParseFromRingBuffer, if_neg (by omega)]
    split
    · rfl
    · rename_i herr hother
      rw [hinc] at hother
      cases hother
      exact absurd rfl (herr ·)
    rename_i hok
    rw [hinc] at hok
    cases hok
  rw [Awaitable.run, hparse]
  simp only [dite_eq_ite]

theorem run_of_packet (h : machine.results.length < expectedResults)
    (hextract : extractPacket connection.buffer = .ok (packet, consumed)) :
    awaitable.run expectedResults capabilities maxFields beyond machine connection =
      match awaitable.step expectedResults capabilities maxFields machine packet.payload
          (firstByte beyond connection.buffer) with
      | .next machine => awaitable.run expectedResults capabilities maxFields beyond machine
          { connection with buffer := connection.buffer.drop consumed }
      | .failed error => .failed error { connection with buffer := connection.buffer.drop consumed }
      | .thrown => .done .thrown connection := by
  have hparse : awaitable.tryParseFromRingBuffer expectedResults capabilities maxFields beyond
      machine connection.buffer =
        match awaitable.step expectedResults capabilities maxFields machine packet.payload
            (firstByte beyond connection.buffer) with
        | .next machine => awaitable.tryParseFromRingBuffer expectedResults capabilities maxFields
            beyond machine (connection.buffer.drop consumed)
        | .failed error => .failed error (connection.buffer.drop consumed)
        | .thrown => .thrown connection.buffer := by
    rw [tryParseFromRingBuffer, if_neg (by omega)]
    split
    · rename_i hother
      rw [hextract] at hother
      cases hother
    · rename_i hother
      rw [hextract] at hother
      cases hother
    rename_i hok
    rw [hextract] at hok
    cases hok
    rfl
  rw [Awaitable.run, hparse]
  cases awaitable.step expectedResults capabilities maxFields machine packet.payload
      (firstByte beyond connection.buffer) with
  | next machine =>
    simp only
    rw [Awaitable.run]
  | failed error => rfl
  | thrown => rfl

theorem firstByte_eq (H : connection.Holds capacity (packet :: packets))
    (hlong : packet.size ≤ connection.buffer.length) (hpay : packet.payload ≠ []) :
    firstByte beyond connection.buffer = packet.payload.headD 0 := by
  obtain ⟨first, payload, hcons⟩ := exists_cons_of_ne_nil hpay
  have hdrop : ∀ rest, (packet.wire ++ rest).drop MYSQL_PACKET_HEADER_SIZE = packet.payload ++ rest := by
    intro rest
    rw [Packet.wire, append_assoc]
    exact drop_left' (by rw [length_append, Lib.length_toLe]; rfl)
  rw [firstByte, H.front hlong, hdrop, hcons]
  rfl

theorem run_related (H : connection.Holds capacity packets)
    (hpay : awaitable.PayloadRun expectedResults capabilities maxFields machine packets) :
    Outcome.Related (fun connection packets => connection.Holds capacity packets)
      (awaitable.run expectedResults capabilities maxFields beyond machine connection)
      (awaitable.feed expectedResults capabilities maxFields capacity machine packets) := by
  by_cases hdone : expectedResults ≤ machine.results.length
  · rw [run_of_complete hdone, feed.eq_def, if_pos hdone]
    exact .done H
  have hmore := Nat.lt_of_not_le hdone
  -- the packets that are left, and while one is being read the bytes that are to come
  induction packets generalizing machine connection with
  | nil =>
    obtain ⟨hbuffer, hincoming⟩ := List.append_eq_nil_iff.1 H.unread_eq
    have hspace : ¬ connection.buffer.length ≥ connection.capacity := by
      rw [hbuffer, H.capacity_eq]
      exact Nat.not_le_of_lt H.capacity_pos
    rw [run_of_incomplete hmore (by rw [hbuffer]; rfl), if_neg hspace, if_pos hincoming, feed,
      if_neg hdone]
    exact .waits H
  | cons packet packets ih =>
  obtain ⟨hpkt, hnext⟩ := hpay hmore
  rw [feed, if_neg hdone]
  induction hlen : connection.incoming.length using Nat.strong_induction_on
    generalizing connection with
  | _ length ihRead =>
  subst hlen
  have hcap := H.capacity_eq
  have hunread := H.unread_eq
  rw [Connection.unread] at hunread
  by_cases hlong : packet.size ≤ connection.buffer.length
  · rw [if_pos (Nat.le_trans hlong H.buffer_le), run_of_packet hmore (H.extractPacket hlong),
      firstByte_eq H hlong hpkt]
    cases hstep : awaitable.step expectedResults capabilities maxFields machine packet.payload
        (packet.payload.headD 0) with
    | next next =>
      simp only
      by_cases hended : expectedResults ≤ next.results.length
      · rw [run_of_complete hended, feed.eq_def, if_pos hended]
        exact .done (H.drop hlong)
      exact ih (H.drop hlong) (hnext next hstep) hended (Nat.lt_of_not_le hended)
    | failed error => exact .failed (H.drop hlong)
    | thrown => exact .done H
  have hinc := extractPacket_incomplete (H.size_lt packet (mem_cons_self ..))
    hunread (Nat.lt_of_not_le hlong)
  rw [run_of_incomplete hmore hinc]
  by_cases hfull : connection.buffer.length ≥ connection.capacity
  · rw [if_pos hfull, if_neg (by omega)]
    exact .failed H
  have hincoming : connection.incoming ≠ [] := by
    intro hnone
    have hlen := congrArg List.length hunread
    rw [hnone, append_nil, flatMap_cons, length_append, packet.length_wire] at hlen
    omega
  rw [if_neg hfull, if_neg hincoming]
  exact ihRead _ (Connection.length_incoming_read hincoming (by omega)) H.read rfl

end Bytes

/-! ## What is left to do -/

theorem Outcome.bind_assoc (x : Outcome σ α) (f : α → σ → Outcome σ β) (g : β → σ → Outcome σ γ) :
    (x.bind f).bind g = x.bind fun value s => (f value s).bind g := by
  cases x <;> rfl

section Left

variable (capacity expectedResults capabilities : Nat)

variable (results : List MysqlResultSet)

/-- The blocking client after a result, with these results before it. -/
def afterResult (result : MysqlResultSet) (packets : List Packet) :
    Outcome (List Packet) (List MysqlResultSet) :=
  receiveResultSets (packetSource capacity) capabilities
    (expectedResults - (results ++ [result]).length) (results ++ [result]) packets

/-- The blocking client before the rows. -/
def fromRows (columnCount : Nat) (rs : MysqlResultSet)
    (packets : List Packet) : Outcome (List Packet) (List MysqlResultSet) :=
  (receiveRows (packetSource capacity) capabilities columnCount rs packets).bind
    (afterResult capacity expectedResults capabilities results)

/-- The blocking client before the packet that ends the columns. -/
def fromColumnEof (columnCount : Nat) (rs : MysqlResultSet)
    (packets : List Packet) : Outcome (List Packet) (List MysqlResultSet) :=
  ((packetSource capacity).recvPacket packets).bind fun _ packets =>
    fromRows capacity expectedResults capabilities results columnCount rs packets

/-- The blocking client before the columns that are left. -/
def fromColumns (columnCount columns : Nat) (rs : MysqlResultSet)
    (packets : List Packet) : Outcome (List Packet) (List MysqlResultSet) :=
  (receiveColumns (packetSource capacity) columns rs packets).bind fun rs packets =>
    if capabilities &&& CLIENT_DEPRECATE_EOF ≠ 0 then
      fromRows capacity expectedResults capabilities results columnCount rs packets
    else
      fromColumnEof capacity expectedResults capabilities results columnCount rs packets

/-- What the blocking client would do from where the machine is. -/
def Machine.blocking (machine : Machine) (packets : List Packet) :
    Outcome (List Packet) (List MysqlResultSet) :=
  match machine.phase with
  | .ReceivingHeader =>
    receiveResultSets (packetSource capacity) capabilities
      (expectedResults - machine.results.length) machine.results packets
  | .ReceivingColumns =>
    fromColumns capacity expectedResults capabilities machine.results machine.columnCount
      (machine.columnCount - machine.columnsReceived) machine.currentResult packets
  | .ReceivingColumnEof =>
    fromColumnEof capacity expectedResults capabilities machine.results machine.columnCount
      machine.currentResult packets
  | .ReceivingRows =>
    fromRows capacity expectedResults capabilities machine.results machine.columnCount
      machine.currentResult packets
  | .Done => .done machine.results packets

/-- A machine that its own steps have made. -/
structure Machine.Valid (machine : Machine) : Prop where
  done : machine.phase = .Done → expectedResults ≤ machine.results.length
  working : machine.phase ≠ .Done → machine.results.length < expectedResults
  header : machine.phase = .ReceivingHeader → machine.currentResult = {}
  columns : machine.phase = .ReceivingColumns → machine.columnsReceived < machine.columnCount

end Left

section Steps

open Awaitable

variable {awaitable : Awaitable} {expectedResults capabilities maxFields : Nat} {machine : Machine}
  {capacity : Nat} {packet : Packet} {packets : List Packet}

/-- What a packet does to the machine, and what the blocking client does at that packet. -/
inductive StepAgrees (expectedResults capabilities capacity : Nat) (packets : List Packet) :
    Step → Outcome (List Packet) (List MysqlResultSet) → Prop
  | next {machine : Machine} (hvalid : machine.Valid expectedResults) :
    StepAgrees expectedResults capabilities capacity packets (.next machine)
      (machine.blocking capacity expectedResults capabilities packets)
  | failed {error error' : MysqlError} (htype : error'.type = error.type) :
    StepAgrees expectedResults capabilities capacity packets (.failed error)
      (.failed error' packets)

theorem finalize_agrees (result : MysqlResultSet) :
    StepAgrees expectedResults capabilities capacity packets
      (.next (finalizeCurrentResult expectedResults machine result))
      (afterResult capacity expectedResults capabilities machine.results result packets) := by
  by_cases hdone : (machine.results ++ [result]).length ≥ expectedResults
  · have hblocking : afterResult capacity expectedResults capabilities machine.results result
        packets = .done (machine.results ++ [result]) packets := by
      rw [afterResult, Nat.sub_eq_zero_of_le hdone, receiveResultSets]
    rw [finalizeCurrentResult, if_pos hdone, hblocking]
    exact .next ⟨fun _ => hdone, fun h => absurd rfl h, nofun, nofun⟩
  rw [finalizeCurrentResult, if_neg hdone]
  exact .next ⟨nofun, fun _ => Nat.lt_of_not_le hdone, fun _ => rfl, nofun⟩

theorem serverError_type (payload : Bytes) (message message' : String) :
    (serverError payload capabilities message).type =
      (serverError payload capabilities message').type := by
  rw [serverError, serverError]
  cases parseErr payload capabilities <;> rfl

section Packet

variable {limit : Nat} (hvalid : machine.Valid expectedResults)
  (hsound : awaitable.Sound maxFields limit machine packet) (hlimit : limit ≤ capacity)

include hvalid hsound hlimit

theorem row_agrees (hph : machine.phase = .ReceivingRows) :
    StepAgrees expectedResults capabilities capacity packets
      (awaitable.stepRow expectedResults capabilities machine packet.payload
        (packet.payload.headD 0))
      (fromRows capacity expectedResults capabilities machine.results machine.columnCount
        machine.currentResult (packet :: packets)) := by
  have hmore := hvalid.working (by rw [hph]; decide)
  have hfits := Nat.le_trans hsound.fits hlimit
  obtain ⟨first, payload, hpay⟩ := exists_cons_of_ne_nil hsound.payload_ne
  rw [fromRows, receiveRows_cons hfits, hpay, headD_cons, stepRow]
  simp only
  by_cases hend : first = 0xFE ∧ (first :: payload).length < 0xFFFFFF
  · rw [if_pos hend, if_pos hend]
    exact finalize_agrees _
  rw [if_neg hend, if_neg hend]
  by_cases herr : first = 0xFF
  · rw [if_pos herr, if_pos herr]
    exact .failed (serverError_type _ _ _)
  rw [if_neg herr, if_neg herr]
  cases parseTextRow (first :: payload) machine.columnCount with
  | error => exact .failed rfl
  | ok row =>
  have hblocking : fromRows capacity expectedResults capabilities machine.results
      machine.columnCount (machine.currentResult.addRow row) packets =
        Machine.blocking capacity expectedResults capabilities
          { machine with currentResult := machine.currentResult.addRow row } packets := by
    rw [Machine.blocking]
    simp only [hph]
  rw [← fromRows, hblocking]
  refine .next ⟨fun h => ?_, fun _ => hmore, fun h => ?_, fun h => ?_⟩ <;>
  · simp only [hph] at h
    cases h

theorem columnEof_agrees (hph : machine.phase = .ReceivingColumnEof) :
    StepAgrees expectedResults capabilities capacity packets
      (.next { machine with phase := .ReceivingRows })
      (fromColumnEof capacity expectedResults capabilities machine.results machine.columnCount
        machine.currentResult (packet :: packets)) := by
  have hfits := Nat.le_trans hsound.fits hlimit
  rw [fromColumnEof, recvPacket_packets hfits]
  exact .next ⟨nofun, fun _ => hvalid.working (by rw [hph]; decide), nofun, nofun⟩

theorem column_agrees (hph : machine.phase = .ReceivingColumns) :
    StepAgrees expectedResults capabilities capacity packets
      (awaitable.stepColumn capabilities machine packet.payload)
      (fromColumns capacity expectedResults capabilities machine.results machine.columnCount
        (machine.columnCount - machine.columnsReceived) machine.currentResult
        (packet :: packets)) := by
  have hmore := hvalid.working (by rw [hph]; decide)
  have hfits := Nat.le_trans hsound.fits hlimit
  have hleft := hvalid.columns hph
  have hcols : machine.columnCount - machine.columnsReceived =
      machine.columnCount - (machine.columnsReceived + 1) + 1 := by omega
  rw [fromColumns, hcols, receiveColumns, recvPacket_packets hfits, stepColumn]
  simp only [Outcome.bind]
  cases parseColumnDefinition packet.payload with
  | error => exact .failed rfl
  | ok field =>
  simp only
  by_cases hlast : machine.columnsReceived + 1 ≥ machine.columnCount
  · rw [if_pos hlast, Nat.sub_eq_zero_of_le hlast, receiveColumns]
    simp only
    by_cases heof : capabilities &&& CLIENT_DEPRECATE_EOF ≠ 0
    · rw [if_pos heof, if_pos heof]
      exact .next ⟨by rintro ⟨⟩, fun _ => hmore, by rintro ⟨⟩, by rintro ⟨⟩⟩
    rw [if_neg heof, if_neg heof]
    exact .next ⟨by rintro ⟨⟩, fun _ => hmore, by rintro ⟨⟩, by rintro ⟨⟩⟩
  rw [if_neg hlast]
  have hblocking : fromColumns capacity expectedResults capabilities machine.results
      machine.columnCount (machine.columnCount - (machine.columnsReceived + 1))
      (machine.currentResult.addField field) packets =
        Machine.blocking capacity expectedResults capabilities
          { machine with
            currentResult := machine.currentResult.addField field
            columnsReceived := machine.columnsReceived + 1 } packets := by
    rw [Machine.blocking]
    simp only [hph]
  have hnext : StepAgrees expectedResults capabilities capacity packets
      (.next { machine with
        currentResult := machine.currentResult.addField field
        columnsReceived := machine.columnsReceived + 1 })
      (fromColumns capacity expectedResults capabilities machine.results
        machine.columnCount (machine.columnCount - (machine.columnsReceived + 1))
        (machine.currentResult.addField field) packets) := by
    rw [hblocking]
    refine .next ⟨fun h => ?_, fun _ => hmore, fun h => ?_, fun _ => Nat.lt_of_not_le hlast⟩ <;>
    · simp only [hph] at h
      cases h
  exact hnext

theorem header_agrees (hph : machine.phase = .ReceivingHeader) :
    StepAgrees expectedResults capabilities capacity packets
      (awaitable.stepHeader expectedResults capabilities maxFields machine packet.payload
        (packet.payload.headD 0))
      (receiveResultSets (packetSource capacity) capabilities
        (expectedResults - machine.results.length) machine.results (packet :: packets)) := by
  have hmore := hvalid.working (by rw [hph]; decide)
  have hfresh := hvalid.header hph
  have hfits := Nat.le_trans hsound.fits hlimit
  have hleft : expectedResults - machine.results.length =
      expectedResults - (machine.results.length + 1) + 1 := by omega
  have hinfo := hsound.info hph
  have hcols := @hsound.columns hph
  obtain ⟨first, payload, hpay⟩ := exists_cons_of_ne_nil hsound.payload_ne
  rw [hpay, headD_cons] at hinfo hcols
  have hcontinue : (fun one packets => receiveResultSets (packetSource capacity) capabilities
      (expectedResults - (machine.results.length + 1)) (machine.results ++ [one]) packets) =
        afterResult capacity expectedResults capabilities machine.results := by
    funext one packets
    rw [afterResult, length_append]
    rfl
  rw [hleft, receiveResultSets, hcontinue, receiveResultSet, recvPacket_packets hfits, hpay,
    headD_cons, stepHeader]
  show StepAgrees _ _ _ _ _ (Outcome.bind _ _)
  simp only [Outcome.bind.eq_1, hpay]
  by_cases herr : first = 0xFF
  · rw [if_pos herr, if_pos herr]
    exact .failed (serverError_type _ _ _)
  rw [if_neg herr, if_neg herr]
  by_cases hok : first = 0x00
  · rw [if_pos hok, if_pos hok]
    cases parseOk (first :: payload) capabilities with
    | error => exact .failed rfl
    | ok ok =>
    simp only [hfresh, hinfo hok, if_true]
    exact finalize_agrees (okResult ok)
  rw [if_neg hok, if_neg hok]
  cases hcount : readLenEncInt (first :: payload) with
  | error => exact .failed rfl
  | ok count =>
  obtain ⟨columnCount, consumed⟩ := count
  obtain ⟨hpos, hmax⟩ := hcols herr hok hcount
  simp only
  rw [if_neg (by omega)]
  have hblocking : Machine.blocking capacity expectedResults capabilities
      { machine with columnCount, columnsReceived := 0, phase := .ReceivingColumns } packets =
        fromColumns capacity expectedResults capabilities machine.results columnCount columnCount
          machine.currentResult packets := rfl
  have hnext : StepAgrees expectedResults capabilities capacity packets
      (.next { machine with columnCount, columnsReceived := 0, phase := .ReceivingColumns })
      (fromColumns capacity expectedResults capabilities machine.results columnCount columnCount
        {} packets) := by
    rw [← hfresh, ← hblocking]
    exact .next ⟨by rintro ⟨⟩, fun _ => hmore, by rintro ⟨⟩, fun _ => hpos⟩
  rw [fromColumns] at hnext
  rw [Outcome.bind_assoc]
  have hafter (rs : MysqlResultSet) (packets : List Packet) :
      (if capabilities &&& CLIENT_DEPRECATE_EOF ≠ 0 then
        receiveRows (packetSource capacity) capabilities columnCount rs packets else
        ((packetSource capacity).recvPacket packets).bind fun _ packets =>
          receiveRows (packetSource capacity) capabilities columnCount rs packets).bind
        (afterResult capacity expectedResults capabilities machine.results) =
      if capabilities &&& CLIENT_DEPRECATE_EOF ≠ 0 then
        fromRows capacity expectedResults capabilities machine.results columnCount rs packets
      else
        fromColumnEof capacity expectedResults capabilities machine.results columnCount rs
          packets := by
    split
    · rfl
    rw [fromColumnEof, Outcome.bind_assoc]
    rfl
  simp only [hafter]
  exact hnext

/-- A packet that is sound does the same to both clients. -/
theorem step_agrees (hph : machine.phase ≠ .Done) :
    StepAgrees expectedResults capabilities capacity packets
      (awaitable.step expectedResults capabilities maxFields machine packet.payload
        (packet.payload.headD 0))
      (machine.blocking capacity expectedResults capabilities (packet :: packets)) := by
  rw [step, Machine.blocking]
  cases hcase : machine.phase with
  | ReceivingHeader => exact header_agrees hvalid hsound hlimit hcase
  | ReceivingColumns => exact column_agrees hvalid hsound hlimit hcase
  | ReceivingColumnEof => exact columnEof_agrees hvalid hsound hlimit hcase
  | ReceivingRows => exact row_agrees hvalid hsound hlimit hcase
  | Done => exact absurd hcase hph

end Packet

end Steps

/-! ## Whole runs -/

/-- The same results, or errors of the same type, or nothing yet; and what is left is the same. -/
inductive Agrees {σ τ : Type} (R : σ → τ → Prop) :
    Outcome σ (List MysqlResultSet) → Outcome τ Awaitable.Finish → Prop
  | done {results : List MysqlResultSet} {s : σ} {t : τ} (hrest : R s t) :
    Agrees R (.done results s) (.done (.results results) t)
  | failed {error error' : MysqlError} {s : σ} {t : τ} (htype : error.type = error'.type)
    (hrest : R s t) : Agrees R (.failed error s) (.failed error' t)
  | waits {s : σ} {t : τ} (hrest : R s t) : Agrees R (.waits s) (.waits t)

section Runs

open Awaitable

variable {awaitable : Awaitable} {expectedResults capabilities maxFields limit capacity : Nat}

theorem receiveRows_nil (columnCount : Nat) (rs : MysqlResultSet) :
    receiveRows (packetSource capacity) capabilities columnCount rs [] = .waits [] := by
  rw [receiveRows]
  rfl

theorem blocking_nil {machine : Machine} (hvalid : machine.Valid expectedResults)
    (hph : machine.phase ≠ .Done) :
    machine.blocking capacity expectedResults capabilities [] = .waits [] := by
  have hmore := hvalid.working hph
  rw [Machine.blocking]
  cases hcase : machine.phase with
  | ReceivingHeader =>
    obtain ⟨left, hleft⟩ := Nat.exists_eq_add_of_lt hmore
    have hleft : expectedResults - machine.results.length = left + 1 := by omega
    simp only [hleft]
    rfl
  | ReceivingColumns =>
    have hcols := hvalid.columns hcase
    have hleft : machine.columnCount - machine.columnsReceived =
        machine.columnCount - (machine.columnsReceived + 1) + 1 := by omega
    simp only [hleft]
    rfl
  | ReceivingColumnEof => rfl
  | ReceivingRows =>
    simp only [fromRows, receiveRows_nil]
    rfl
  | Done => exact absurd hcase hph

theorem feed_agrees (hlimit : limit ≤ capacity) (hlimit' : limit ≤ capacity')
    (hvalid : machine.Valid expectedResults)
    (hsound : awaitable.SoundRun expectedResults capabilities maxFields limit machine packets) :
    Agrees Eq (machine.blocking capacity expectedResults capabilities packets)
      (awaitable.feed expectedResults capabilities maxFields capacity' machine packets) := by
  induction packets generalizing machine with
  | nil =>
    rw [feed]
    by_cases hph : machine.phase = .Done
    · rw [if_pos (hvalid.done hph), Machine.blocking, hph]
      exact .done rfl
    rw [if_neg (Nat.not_le_of_lt (hvalid.working hph)), blocking_nil hvalid hph]
    exact .waits rfl
  | cons packet packets ih =>
  rw [feed]
  by_cases hph : machine.phase = .Done
  · rw [if_pos (hvalid.done hph), Machine.blocking, hph]
    exact .done rfl
  have hmore := hvalid.working hph
  obtain ⟨hpkt, hnext⟩ := hsound hmore
  have hstep : StepAgrees expectedResults capabilities capacity packets _ _ :=
    step_agrees hvalid hpkt hlimit hph
  rw [if_neg (Nat.not_le_of_lt hmore), if_pos (Nat.le_trans hpkt.fits hlimit')]
  generalize machine.blocking capacity expectedResults capabilities (packet :: packets) = x at hstep
  generalize hs : awaitable.step expectedResults capabilities maxFields machine packet.payload
    (packet.payload.headD 0) = step at hstep hnext
  cases hstep with
  | next hvalid => exact ih hvalid (hnext _ rfl)
  | failed htype => exact .failed htype rfl

theorem Machine.valid_start (expectedResults : Nat) :
    (Machine.start expectedResults).Valid expectedResults := by
  rw [Machine.start]
  split
  · rename_i hzero
    exact ⟨fun _ => Nat.le_of_eq hzero, fun h => absurd rfl h, nofun, nofun⟩
  rename_i hpos
  exact ⟨nofun, fun _ => Nat.pos_of_ne_zero hpos, fun _ => rfl, nofun⟩

theorem Machine.blocking_start (packets : List Packet) :
    (Machine.start expectedResults).blocking capacity expectedResults capabilities packets =
      receiveResultSets (packetSource capacity) capabilities expectedResults [] packets := by
  rw [Machine.start]
  split
  · rename_i hzero
    subst hzero
    rfl
  rfl

/-- Packets that are the same for both are the same bytes. -/
theorem Agrees.of_related
    {x : Outcome Connection (List MysqlResultSet)} {y : Outcome Connection Finish}
    (H : Agrees Eq x' y')
    (hx : Outcome.Related (fun connection packets => connection.Holds capacity packets) x x')
    (hy : Outcome.Related (fun connection packets => connection.Holds capacity' packets) y y') :
    Agrees (fun s t => s.unread = t.unread) x y := by
  cases H with
  | done hrest =>
    subst hrest
    cases hx with
    | done hs =>
    cases hy with
    | done ht => exact .done (hs.unread_eq.trans ht.unread_eq.symm)
  | failed htype hrest =>
    subst hrest
    cases hx with
    | failed hs =>
    cases hy with
    | failed ht => exact .failed htype (hs.unread_eq.trans ht.unread_eq.symm)
  | waits hrest =>
  subst hrest
  cases hx with
  | waits hs =>
  cases hy with
  | waits ht => exact .waits (hs.unread_eq.trans ht.unread_eq.symm)

/-- Both clients come to the same end, however the bytes are cut into reads on either side. -/
theorem run_agrees (awaitable : Awaitable) (expectedResults capabilities maxFields : Nat)
    (beyond : Bytes → UInt8) (packets : List Packet) (capacity capacity' : Nat)
    (blocking awaiting : Connection) (hblocking : blocking.Holds capacity packets)
    (hawaiting : awaiting.Holds capacity' packets)
    (hsound : awaitable.SoundRun expectedResults capabilities maxFields (min capacity capacity')
      (Machine.start expectedResults) packets) :
    Agrees (fun s t => s.unread = t.unread)
      (receiveResultSets Connection.source capabilities expectedResults [] blocking)
      (awaitable.run expectedResults capabilities maxFields beyond (Machine.start expectedResults)
        awaiting) := by
  have hsync := hblocking.receiveResultSets capabilities expectedResults []
  have hasync : Outcome.Related (fun connection packets => connection.Holds capacity' packets)
      (awaitable.run expectedResults capabilities maxFields beyond (Machine.start expectedResults)
        awaiting) _ := run_related hawaiting hsound.payloadRun
  have hagree := feed_agrees (Nat.min_le_left capacity capacity')
    (Nat.min_le_right capacity capacity') (Machine.valid_start expectedResults) hsound
  rw [Machine.blocking_start] at hagree
  exact hagree.of_related hsync hasync

/-- A query and a pipeline, on packets that are all sound. -/
theorem query_pipeline_agree (capabilities maxFields : Nat) (beyond : Bytes → UInt8)
    (packets : List Packet) (capacity capacity' : Nat) (blocking awaiting : Connection)
    (hblocking : blocking.Holds capacity packets) (hawaiting : awaiting.Holds capacity' packets) :
    (MysqlQueryAwaitable.SoundRun 1 capabilities maxFields (min capacity capacity')
        (Machine.start 1) packets →
      Agrees (fun s t => s.unread = t.unread)
        (receiveResultSets Connection.source capabilities 1 [] blocking)
        (MysqlQueryAwaitable.run 1 capabilities maxFields beyond (Machine.start 1) awaiting)) ∧
    ∀ commands, MysqlPipelineAwaitable.SoundRun commands capabilities maxFields
        (min capacity capacity') (Machine.start commands) packets →
      Agrees (fun s t => s.unread = t.unread)
        (receiveResultSets Connection.source capabilities commands [] blocking)
        (MysqlPipelineAwaitable.run commands capabilities maxFields beyond
          (Machine.start commands) awaiting) :=
  ⟨run_agrees _ 1 capabilities maxFields beyond packets capacity capacity' blocking awaiting
      hblocking hawaiting,
    fun commands => run_agrees _ commands capabilities maxFields beyond packets capacity capacity'
      blocking awaiting hblocking hawaiting⟩

end Runs

/-! ## Two streams -/

/-- A connection on which these packets come in one read. -/
def connectionOf (packets : List Packet) : Connection where
  capacity := MysqlClient.kRecvBufferCapacity
  buffer := []
  incoming := packets.flatMap Packet.wire
  reads := fun _ => MysqlClient.kRecvBufferCapacity

theorem connectionOf_holds (hsize : ∀ packet ∈ packets, packet.payload.length < 2 ^ 24) :
    (connectionOf packets).Holds MysqlClient.kRecvBufferCapacity packets where
  capacity_eq := rfl
  capacity_pos := by decide
  buffer_le := Nat.zero_le _
  unread_eq := rfl
  size_lt := hsize

/-- An OK packet for a query. -/
def okPacket : Packet := ⟨1, [0x00, 0x01, 0x00, 0x02, 0x00, 0x00, 0x00]⟩

theorem query_agrees_okPacket :
    Agrees (fun s t => s.unread = t.unread)
      (receiveResultSets Connection.source CLIENT_PROTOCOL_41 1 [] (connectionOf [okPacket]))
      (MysqlQueryAwaitable.run 1 CLIENT_PROTOCOL_41 4096 (fun _ => 0) (Machine.start 1)
        (connectionOf [okPacket])) := by
  have hholds : (connectionOf [okPacket]).Holds MysqlClient.kRecvBufferCapacity [okPacket] :=
    connectionOf_holds (by decide)
  refine (query_pipeline_agree CLIENT_PROTOCOL_41 4096 (fun _ => 0) [okPacket] _ _ _ _ hholds
    hholds).1 fun _ => ⟨⟨by decide, by decide, fun _ _ hok => absurd rfl hok, fun _ _ => rfl⟩, ?_⟩
  exact fun _ _ => trivial

namespace Outcome

variable {σ α : Type}

/-- The type of the error, if there is one. -/
def errorType : Outcome σ α → Option MysqlErrorType
  | .failed error _ => some error.type
  | .done _ _ | .waits _ => none

end Outcome

theorem Agrees.errorType_eq {R : σ → τ → Prop}
    {x : Outcome σ (List MysqlResultSet)} {y : Outcome τ Awaitable.Finish} (H : Agrees R x y) :
    x.errorType = y.errorType := by
  cases H with
  | done => rfl
  | failed htype => exact congrArg some htype
  | waits => rfl

/-- An empty packet, and one of 255 bytes. -/
def emptyThenLong : List Packet := [⟨1, []⟩, ⟨2, List.replicate 255 0x01⟩]

/-- The machine of a query takes the length of the next packet for the first byte of an empty one. -/
theorem not_agrees_emptyThenLong :
    ¬ Agrees (fun s t => s.unread = t.unread)
      (receiveResultSets Connection.source CLIENT_PROTOCOL_41 1 [] (connectionOf emptyThenLong))
      (MysqlQueryAwaitable.run 1 CLIENT_PROTOCOL_41 4096 (fun _ => 0) (Machine.start 1)
        (connectionOf emptyThenLong)) := by
  intro H
  have hblocking : (receiveResultSets Connection.source CLIENT_PROTOCOL_41 1 []
      (connectionOf emptyThenLong)).errorType = some .MYSQL_ERROR_PROTOCOL := by decide +kernel
  have hawaiting : (MysqlQueryAwaitable.run 1 CLIENT_PROTOCOL_41 4096 (fun _ => 0)
      (Machine.start 1) (connectionOf emptyThenLong)).errorType = some .MYSQL_ERROR_QUERY := by
    decide +kernel
  have hequal := H.errorType_eq
  rw [hblocking, hawaiting] at hequal
  cases hequal

end Galay.Mysql
