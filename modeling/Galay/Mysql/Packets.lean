import Galay.Mysql.Client

/-!
# Packets in the order in which they come

How the bytes of a connection are cut into reads does not show: a client that reads from it does
what it would do with the list of the packets (`receiveResultSets_related`). The one trace of the
ring buffer is that a packet larger than it is never received.
-/

namespace Galay.Mysql

open List

namespace Outcome

variable {σ τ α β : Type} {R : σ → τ → Prop}

/-- Two ends that differ only in what they leave, and this by `R`. -/
inductive Related (R : σ → τ → Prop) : Outcome σ α → Outcome τ α → Prop
  | done {value : α} {s : σ} {t : τ} (h : R s t) : Related R (.done value s) (.done value t)
  | failed {error : MysqlError} {s : σ} {t : τ} (h : R s t) :
    Related R (.failed error s) (.failed error t)
  | waits {s : σ} {t : τ} (h : R s t) : Related R (.waits s) (.waits t)

theorem Related.bind {g : α → τ → Outcome τ β} (H : Related R x y)
    (hnext : ∀ value s t, R s t → Related R (f value s) (g value t)) :
    Related R (x.bind f) (y.bind g) := by
  cases H with
  | done h => exact hnext _ _ _ h
  | failed h => exact .failed h
  | waits h => exact .waits h

end Outcome

/-! ## Two sources of the same packets -/

section TwoSources

open Outcome

variable {σ τ : Type} {R : σ → τ → Prop} {source : Source σ} {source' : Source τ}
  (hrecv : ∀ s t, R s t → Related R (source.recvPacket s) (source'.recvPacket t))
  {capabilities : Nat}

include hrecv

theorem receiveColumns_related (columns : Nat) (rs : MysqlResultSet) (h : R s t) :
    Related R (receiveColumns source columns rs s) (receiveColumns source' columns rs t) := by
  induction columns generalizing rs s t with
  | zero => exact .done h
  | succ columns ih =>
  apply (hrecv s t h).bind
  intro packet s t h
  cases parseColumnDefinition packet.payload with
  | error => exact .failed h
  | ok field => exact ih _ h

theorem receiveRows_related (columnCount : Nat) (rs : MysqlResultSet)
    (h : R s t) : Related R (receiveRows source capabilities columnCount rs s)
      (receiveRows source' capabilities columnCount rs t) := by
  -- the packets that are left of the first source bound the rows
  induction hsize : source.size s using Nat.strong_induction_on generalizing rs s t with
  | _ size ih =>
  subst hsize
  have hpkt := hrecv s t h
  rw [receiveRows, receiveRows]
  generalize hs : source.recvPacket s = x at hpkt
  generalize ht : source'.recvPacket t = y at hpkt
  cases hpkt with
  | failed h => exact .failed h
  | waits h => exact .waits h
  | done h =>
  rename_i packet s t
  simp only
  cases packet.payload with
  | nil => exact .failed h
  | cons first payload =>
  simp only
  split
  · exact .done h
  split
  · exact .failed h
  cases parseTextRow (first :: payload) columnCount with
  | error => exact .failed h
  | ok row => exact ih _ (source.size_lt hs) _ h rfl

theorem receiveResultSet_related (h : R s t) : Related R (receiveResultSet source capabilities s)
      (receiveResultSet source' capabilities t) := by
  apply (hrecv s t h).bind
  intro packet s t h
  cases packet.payload with
  | nil => exact .failed h
  | cons first payload =>
  simp only
  split
  · exact .failed h
  split
  · cases parseOk (first :: payload) capabilities with
    | error => exact .failed h
    | ok ok => exact .done h
  cases readLenEncInt (first :: payload) with
  | error => exact .failed h
  | ok count =>
  apply (receiveColumns_related hrecv count.1 {} h).bind
  intro rs s t h
  split
  · exact receiveRows_related hrecv count.1 rs h
  exact (hrecv s t h).bind fun _ _ _ h => receiveRows_related hrecv count.1 rs h

theorem receiveResultSets_related (commands : Nat) (results : List MysqlResultSet)
    (h : R s t) : Related R (receiveResultSets source capabilities commands results s)
      (receiveResultSets source' capabilities commands results t) := by
  induction commands generalizing results s t with
  | zero => exact .done h
  | succ commands ih =>
  apply (receiveResultSet_related hrecv h).bind
  exact fun one s t h => ih _ h

end TwoSources

/-! ## The packets of a connection -/

def Packet.wire (packet : Packet) : Bytes :=
  Lib.toLe 3 packet.payload.length ++ [packet.sequenceId] ++ packet.payload

def Packet.size (packet : Packet) : Nat := MYSQL_PACKET_HEADER_SIZE + packet.payload.length

theorem Packet.length_wire (packet : Packet) : packet.wire.length = packet.size := by
  rw [wire, length_append, length_append, Lib.length_toLe, length_singleton]
  rfl

def ringBufferExhausted : MysqlError :=
  ⟨.MYSQL_ERROR_RECV, 0, ascii "Ring buffer exhausted before parsing complete MySQL responses"⟩

/-- Packets in a list. One that a ring buffer of the given capacity cannot hold is not received. -/
def packetSource (capacity : Nat) : Source (List Packet) where
  recvPacket
    | [] => .waits []
    | packet :: packets =>
      if packet.size ≤ capacity then .done packet packets
      else .failed ringBufferExhausted (packet :: packets)
  size := List.length
  size_lt {packets next packet} h := by
    match packets with
    | [] => cases h
    | packet :: packets =>
      simp only at h
      split at h
      · cases h
        exact Nat.lt_succ_self _
      · cases h

section List

variable {capacity capabilities : Nat} {packet : Packet} (hfits : packet.size ≤ capacity)
  (packets : List Packet)

include hfits

theorem recvPacket_packets :
    (packetSource capacity).recvPacket (packet :: packets) = .done packet packets :=
  if_pos hfits

theorem receiveRows_cons (columnCount : Nat) (rs : MysqlResultSet) :
    receiveRows (packetSource capacity) capabilities columnCount rs (packet :: packets) =
      match packet.payload with
      | [] => .failed (protocolError "Empty row payload") packets
      | first :: _ =>
        if first = 0xFE ∧ packet.payload.length < 0xFFFFFF then
          .done (endResult rs packet.payload capabilities) packets
        else if first = 0xFF then
          .failed (serverError packet.payload capabilities "Error during row fetch") packets
        else
          match parseTextRow packet.payload columnCount with
          | .error _ => .failed (protocolError "Failed to parse text row") packets
          | .ok row =>
            receiveRows (packetSource capacity) capabilities columnCount (rs.addRow row)
              packets := by
  rw [receiveRows]
  split
  · rename_i h
    rw [recvPacket_packets hfits] at h
    cases h
  · rename_i h
    rw [recvPacket_packets hfits] at h
    cases h
  rename_i h
  rw [recvPacket_packets hfits] at h
  cases h
  rfl

end List

variable {packet : Packet}

section

variable (hsize : packet.payload.length < 2 ^ 24)

include hsize

theorem readUint_wire (hdata : data ++ rest = packet.wire ++ more) (hthree : 3 ≤ data.length) :
    readUint 3 data = packet.payload.length := by
  have htake := congrArg (List.take 3) hdata
  rw [take_append_of_le_length hthree, Packet.wire, append_assoc, append_assoc,
    take_left' (Lib.length_toLe 3 _)] at htake
  rw [readUint, htake, Lib.ofLe_toLe hsize]

theorem extractPacket_wire
    (rest : Bytes) : extractPacket (packet.wire ++ rest) = .ok (packet, packet.size) := by
  have hlen : (packet.wire ++ rest).length = packet.size + rest.length := by
    rw [length_append, packet.length_wire]
  have hfour : MYSQL_PACKET_HEADER_SIZE ≤ packet.size := Nat.le_add_right _ _
  have hread := readUint_wire hsize (append_nil (packet.wire ++ rest))
    (Nat.le_trans (by decide : 3 ≤ MYSQL_PACKET_HEADER_SIZE) (by omega))
  have hsplit : packet.wire ++ rest =
      (Lib.toLe 3 packet.payload.length ++ [packet.sequenceId]) ++ (packet.payload ++ rest) := by
    rw [Packet.wire, append_assoc]
  have hpay : ((packet.wire ++ rest).drop MYSQL_PACKET_HEADER_SIZE).take packet.payload.length =
      packet.payload := by
    rw [hsplit, drop_left', take_left]
    rw [length_append, Lib.length_toLe]
    rfl
  have hseq : (packet.wire ++ rest)[3]? = some packet.sequenceId := by
    rw [hsplit, append_assoc, getElem?_append_right (by rw [Lib.length_toLe]), Lib.length_toLe]
    rfl
  rw [extractPacket, dif_neg (by omega)]
  simp only [hread]
  rw [getElem?_eq_getElem (Nat.lt_of_lt_of_le (by decide) (Nat.le_trans hfour (by omega))),
    Option.some.injEq] at hseq
  rw [if_neg (by rw [hlen, Packet.size]; omega), hpay, hseq]
  rfl

theorem extractPacket_incomplete (hdata : data ++ rest = packet.wire ++ more)
    (hshort : data.length < packet.size) : extractPacket data = .error .Incomplete := by
  rw [extractPacket]
  split
  · rfl
  rename_i hfour
  have hthree : 3 ≤ data.length :=
    Nat.le_trans (by decide : 3 ≤ MYSQL_PACKET_HEADER_SIZE) (Nat.le_of_not_lt hfour)
  have hread := readUint_wire hsize hdata hthree
  simp only [hread]
  exact if_pos hshort

end

namespace Connection

/-- The unread bytes of a connection are these packets. -/
structure Holds (connection : Connection) (capacity : Nat) (packets : List Packet) : Prop where
  capacity_eq : connection.capacity = capacity
  capacity_pos : 0 < capacity
  buffer_le : connection.buffer.length ≤ capacity
  unread_eq : connection.unread = packets.flatMap Packet.wire
  size_lt : ∀ packet ∈ packets, packet.payload.length < 2 ^ 24

variable {connection : Connection} {capacity : Nat} {packets : List Packet}

theorem unread_read (connection : Connection) : connection.read.unread = connection.unread := by
  rw [unread, unread, read]
  simp only [append_assoc, take_append_drop]

theorem Holds.read (H : connection.Holds capacity packets) :
    connection.read.Holds capacity packets where
  __ := H
  buffer_le := by
    have hle := H.buffer_le
    have hcap := H.capacity_eq
    rw [Connection.read]
    simp only [length_append, length_take, readSize]
    omega
  unread_eq := (unread_read connection).trans H.unread_eq

section InBuffer

variable {packet : Packet} (H : connection.Holds capacity (packet :: packets))
  (hlong : packet.size ≤ connection.buffer.length)

include H hlong

theorem Holds.front : connection.buffer = packet.wire ++ connection.buffer.drop packet.size := by
  have hunread := H.unread_eq
  rw [unread, flatMap_cons] at hunread
  have htake := congrArg (List.take packet.size) hunread
  rw [take_append_of_le_length hlong, take_left' packet.length_wire] at htake
  rw [← htake, take_append_drop]

theorem Holds.extractPacket :
    Mysql.extractPacket connection.buffer = .ok (packet, packet.size) := by
  rw [H.front hlong]
  exact extractPacket_wire (H.size_lt packet (mem_cons_self ..)) _

theorem Holds.drop :
    Holds { connection with buffer := connection.buffer.drop packet.size } capacity packets where
  __ := H
  buffer_le := by
    have hle := H.buffer_le
    rw [length_drop]
    omega
  unread_eq := by
    have hunread := H.unread_eq
    rw [unread, flatMap_cons, H.front hlong, append_assoc] at hunread
    rw [unread]
    exact append_cancel_left hunread
  size_lt := fun other hother => H.size_lt other (mem_cons_of_mem _ hother)

end InBuffer

section

variable (hinc : extractPacket connection.buffer = .error .Incomplete)
include hinc

theorem recvPacket_of_incomplete :
    connection.recvPacket =
      connection.recvIntoRingBuffer.bind fun _ next => next.recvPacket := by
  rw [Connection.recvPacket, tryExtractPacket, hinc]
  simp only
  split
  all_goals
    rename_i hrecv
    rw [hrecv]
    rfl

theorem recvPacket_of_full (hfull : connection.capacity ≤ connection.buffer.length) :
    connection.recvPacket = .failed ringBufferExhausted connection := by
  rw [recvPacket_of_incomplete hinc, recvIntoRingBuffer, if_pos hfull]
  rfl

theorem recvPacket_of_space (hspace : connection.buffer.length < connection.capacity) :
    connection.recvPacket =
      if connection.incoming = [] then .waits connection else connection.read.recvPacket := by
  rw [recvPacket_of_incomplete hinc, recvIntoRingBuffer, if_neg (by omega)]
  split
  · rfl
  rfl

end

section

variable (H : connection.Holds capacity packets)
include H

/-- The next packet of a connection is the first of the list. -/
theorem Holds.recvPacket :
    Outcome.Related (fun connection packets => connection.Holds capacity packets)
      connection.recvPacket ((packetSource capacity).recvPacket packets) := by
  induction hlen : connection.incoming.length using Nat.strong_induction_on
    generalizing connection with
  | _ length ih =>
  subst hlen
  have hcap := H.capacity_eq
  have hpos := H.capacity_pos
  have hle := H.buffer_le
  have hunread := H.unread_eq
  rw [unread] at hunread
  cases packets with
  | nil =>
    obtain ⟨hbuffer, hincoming⟩ := List.append_eq_nil_iff.1 hunread
    have hspace : connection.buffer.length < connection.capacity := by
      rw [hbuffer, hcap]
      exact hpos
    rw [recvPacket_of_space (by rw [hbuffer]; rfl) hspace, if_pos hincoming]
    exact .waits H
  | cons packet packets =>
  by_cases hlong : packet.size ≤ connection.buffer.length
  · rw [Connection.recvPacket, tryExtractPacket, H.extractPacket hlong]
    show Outcome.Related _ (.done packet _) (if packet.size ≤ capacity then _ else _)
    rw [if_pos (by omega)]
    exact .done (H.drop hlong)
  have hinc := extractPacket_incomplete (H.size_lt packet (mem_cons_self ..)) hunread
    (Nat.lt_of_not_le hlong)
  by_cases hspace : connection.buffer.length < connection.capacity
  · have hincoming : connection.incoming ≠ [] := by
      intro hnone
      have hlen := congrArg List.length hunread
      rw [hnone, append_nil, flatMap_cons, length_append, packet.length_wire] at hlen
      omega
    rw [recvPacket_of_space hinc hspace, if_neg hincoming]
    exact ih _ (length_incoming_read hincoming hspace) H.read rfl
  rw [recvPacket_of_full hinc (Nat.le_of_not_lt hspace)]
  show Outcome.Related _ (.failed _ _) (if packet.size ≤ capacity then _ else _)
  rw [if_neg (by omega)]
  exact .failed H

theorem Holds.receiveResultSet (capabilities : Nat) :
    Outcome.Related (fun connection packets => connection.Holds capacity packets)
      (Mysql.receiveResultSet source capabilities connection)
      (Mysql.receiveResultSet (packetSource capacity) capabilities packets) :=
  receiveResultSet_related (fun _ _ h => Holds.recvPacket h) H

theorem Holds.receiveResultSets (capabilities commands : Nat) (results : List MysqlResultSet) :
    Outcome.Related (fun connection packets => connection.Holds capacity packets)
      (Mysql.receiveResultSets source capabilities commands results connection)
      (Mysql.receiveResultSets (packetSource capacity) capabilities commands results packets) :=
  receiveResultSets_related (fun _ _ h => Holds.recvPacket h) commands results H

end

end Connection

end Galay.Mysql
