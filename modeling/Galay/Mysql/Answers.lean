import Galay.Mysql.Responses

/-!
# Answers to commands

An answer is a list of parts, each but the last with the flag that says that more is to come.
`receiveResultSet` reads one part and leaves what stands behind it (`receive_part`).
-/

namespace Galay.Mysql

open List

/-- A part of an answer. The rows of a table may be cut off by an error. -/
inductive Part
  | ok (ok : OkPacket)
  | err (err : ErrPacket)
  | table (columns : List MysqlField) (columnsEof : EofPacket) (rows : List MysqlRow)
    (eof : EofPacket)
  | cut (columns : List MysqlField) (columnsEof : EofPacket) (rows : List MysqlRow)
    (err : ErrPacket)

namespace Part

/-- The flag of a part that is not the last. -/
def moreResults : Part → Bool
  | ok packet => packet.statusFlags &&& SERVER_MORE_RESULTS_EXISTS ≠ 0
  | table _ _ _ eof => eof.statusFlags &&& SERVER_MORE_RESULTS_EXISTS ≠ 0
  | err _ | cut .. => false

/-- Columns and rows that fit each other. -/
structure ValidRows (columns : List MysqlField) (rows : List MysqlRow) : Prop where
  columns_pos : columns ≠ []
  columns_lt : columns.length < 2 ^ 64
  column : ∀ column ∈ columns, column.Valid
  row_length : ∀ row ∈ rows, row.length = columns.length
  storable : ∀ row ∈ rows, ∀ str, some str ∈ row → Storable str

def Valid (modern : Bool) : Part → Prop
  | ok packet => packet.Valid modern
  | err packet => packet.Valid modern
  | table columns columnsEof rows eof =>
    ValidRows columns rows ∧ columnsEof.Valid modern ∧ eof.Valid modern
  | cut columns columnsEof rows packet =>
    ValidRows columns rows ∧ columnsEof.Valid modern ∧ packet.Valid modern

/-- The payloads that announce the columns. -/
def head (modern : Bool) (columns : List MysqlField) (columnsEof : EofPacket) : List Bytes :=
  writeLenEncInt columns.length :: (columns.map columnPayload ++ [eofPayload modern columnsEof])

def payloads (modern : Bool) : Part → List Bytes
  | ok packet => [okPayload modern packet]
  | err packet => [errPayload modern packet]
  | table columns columnsEof rows eof =>
    head modern columns columnsEof ++ (rows.map rowPayload ++ [eofPayload modern eof])
  | cut columns columnsEof rows packet =>
    head modern columns columnsEof ++ (rows.map rowPayload ++ [errPayload modern packet])

def serverErr (err : ErrPacket) : MysqlError :=
  ⟨.MYSQL_ERROR_SERVER, err.errorCode, err.errorMessage⟩

/-- What a client should make of the part. -/
def result : Part → Except MysqlError MysqlResultSet
  | ok packet => .ok (okResult packet)
  | err packet => .error (serverErr packet)
  | table columns _ rows eof =>
    .ok { fields := columns, rows, warnings := eof.warnings, statusFlags := eof.statusFlags }
  | cut _ _ _ packet => .error (serverErr packet)

end Part

/-- A call that has ended with this result. -/
def ended {σ α : Type} (result : Except MysqlError α) (rest : σ) : Outcome σ α :=
  match result with
  | .ok value => .done value rest
  | .error error => .failed error rest

/-! ## Reading a part -/

section Reading

variable {capacity capabilities : Nat} (heof : capabilities &&& CLIENT_DEPRECATE_EOF = 0)

/-- The packets hold these payloads, and the ring buffer can hold the packets. -/
structure Carry (capacity : Nat) (packets : List Packet) (payloads : List Bytes) : Prop where
  payload_eq : packets.map (·.payload) = payloads
  fits : ∀ packet ∈ packets, packet.size ≤ capacity

variable {packets : List Packet}

theorem Carry.cons {payload : Bytes} {payloads : List Bytes}
    (H : Carry capacity packets (payload :: payloads)) :
    ∃ packet rest, packets = packet :: rest ∧ packet.payload = payload ∧ packet.size ≤ capacity ∧
      Carry capacity rest payloads := by
  obtain ⟨packet, rest, rfl, hpay, hrest⟩ := List.map_eq_cons_iff.1 H.payload_eq
  exact ⟨packet, rest, rfl, hpay, H.fits packet (mem_cons_self ..), hrest,
    fun other hother => H.fits other (mem_cons_of_mem _ hother)⟩

theorem Carry.append (H : Carry capacity packets (payloads ++ payloads')) :
    ∃ first second, packets = first ++ second ∧ Carry capacity first payloads ∧
      Carry capacity second payloads' := by
  obtain ⟨first, second, rfl, hfirst, hsecond⟩ := List.map_eq_append_iff.1 H.payload_eq
  exact ⟨first, second, rfl, ⟨hfirst, fun packet hpkt =>
    H.fits packet (mem_append_left _ hpkt)⟩, hsecond, fun packet hpkt =>
    H.fits packet (mem_append_right _ hpkt)⟩

theorem Carry.nil (H : Carry capacity packets []) : packets = [] :=
  List.map_eq_nil_iff.1 H.payload_eq

theorem receiveColumns_columns (H : Carry capacity packets (columns.map columnPayload))
    (hvalid : ∀ column ∈ columns, column.Valid) (rs : MysqlResultSet) (rest : List Packet) :
    receiveColumns (packetSource capacity) columns.length rs (packets ++ rest) =
      .done { rs with fields := rs.fields ++ columns } rest := by
  induction columns generalizing packets rs with
  | nil =>
    rw [H.nil, length_nil, receiveColumns, append_nil, nil_append]
  | cons column columns ih =>
  obtain ⟨packet, packets, rfl, hpay, hfits, H⟩ := H.cons
  have hparse := parseColumnDefinition_write (hvalid column (mem_cons_self ..))
  have hrest := fun other hother => hvalid other (mem_cons_of_mem _ hother)
  rw [length_cons, receiveColumns, cons_append, recvPacket_packets hfits]
  simp only [Outcome.bind, hpay, hparse]
  rw [ih H hrest, MysqlResultSet.addField, append_assoc]
  rfl

/-- A row that is not longer than a packet can be does not look like the end of the rows. -/
theorem head_rowPayload {row : MysqlRow} (hrow : row ≠ [])
    (hsize : (rowPayload row).length < 0x1000000) : ∃ first payload,
      rowPayload row = first :: payload ∧ first ≠ 0xFE ∧ first ≠ 0xFF := by
  obtain ⟨column, row, rfl⟩ := exists_cons_of_ne_nil hrow
  rw [rowPayload, flatMap_cons] at hsize ⊢
  cases column with
  | none => exact ⟨_, _, rfl, by decide, by decide⟩
  | some str =>
  obtain ⟨first, rest, hhead, -, hcut, -, hlarge⟩ := head_writeLenEncInt str.length
  rw [columnText, writeLenEncString, length_append, length_append] at hsize
  rw [columnText, writeLenEncString, hhead]
  refine ⟨first, _, rfl, fun hend => ?_, hcut⟩
  have hlong := hlarge hend
  omega

/-- A payload that the row loop takes for this row. -/
def ReadAs (columnCount : Nat) (payload : Bytes) (row : MysqlRow) : Prop :=
  (∃ first rest, payload = first :: rest ∧ first ≠ 0xFE ∧ first ≠ 0xFF) ∧
    parseTextRow payload columnCount = .ok row

theorem receiveRows_readAs (H : Carry capacity packets (rows.map encode))
    (hread : ∀ row ∈ rows, ReadAs columnCount (encode row) row) (rs : MysqlResultSet)
    (rest : List Packet) :
    receiveRows (packetSource capacity) capabilities columnCount rs (packets ++ rest) =
      receiveRows (packetSource capacity) capabilities columnCount
        { rs with rows := rs.rows ++ rows } rest := by
  induction rows generalizing packets rs with
  | nil => rw [H.nil, append_nil, nil_append]
  | cons row rows ih =>
  obtain ⟨packet, packets, rfl, hpay, hfits, H⟩ := H.cons
  obtain ⟨⟨first, payload, hfirst, hend, hcut⟩, hparse⟩ := hread row (mem_cons_self ..)
  rw [cons_append, receiveRows_cons hfits, hpay, hparse, hfirst]
  simp only
  rw [if_neg (fun h => hend h.1), if_neg hcut,
    ih H fun other hother => hread other (mem_cons_of_mem _ hother),
    MysqlResultSet.addRow, append_assoc]
  rfl

theorem receiveRows_rows
    (H : Carry capacity packets (rows.map rowPayload)) (hcap : capacity < 0x1000000)
    (hcols : 0 < columnCount) (hlen : ∀ row ∈ rows, row.length = columnCount)
    (hstorable : ∀ row ∈ rows, ∀ str, some str ∈ row → Storable str) (rs : MysqlResultSet)
    (rest : List Packet) :
    receiveRows (packetSource capacity) capabilities columnCount rs (packets ++ rest) =
      receiveRows (packetSource capacity) capabilities columnCount
        { rs with rows := rs.rows ++ rows } rest := by
  refine receiveRows_readAs H (fun row hrow => ⟨?_, ?_⟩) rs rest
  · have hmem : rowPayload row ∈ packets.map (·.payload) := by
      rw [H.payload_eq]
      exact mem_map_of_mem hrow
    obtain ⟨packet, hpkt, hpay⟩ := List.mem_map.1 hmem
    have hfits := H.fits packet hpkt
    rw [Packet.size, hpay] at hfits
    have hlong := hlen row hrow
    exact head_rowPayload (ne_nil_of_length_pos (by omega)) (by omega)
  rw [← hlen row hrow]
  exact parseTextRow_write (hstorable row hrow)

theorem length_eofPayload (modern : Bool) (eof : EofPacket) :
    (eofPayload modern eof).length < 0xFFFFFF := by
  rw [eofPayload]
  cases modern
  · rw [if_neg Bool.false_ne_true, append_nil, length_singleton]
    decide
  rw [if_pos rfl, length_append, length_append, Lib.length_toLe, Lib.length_toLe, length_singleton]
  decide

include heof in
theorem receiveRows_eof (hpay : packet.payload = eofPayload (isModern capabilities) eof)
    (hvalid : eof.Valid (isModern capabilities)) (hfits : packet.size ≤ capacity)
    (columnCount : Nat) (rs : MysqlResultSet) (rest : List Packet) :
    receiveRows (packetSource capacity) capabilities columnCount rs (packet :: rest) =
      .done { rs with warnings := eof.warnings, statusFlags := eof.statusFlags } rest := by
  have hlen := length_eofPayload (isModern capabilities) eof
  have hend : endResult rs packet.payload capabilities =
      { rs with warnings := eof.warnings, statusFlags := eof.statusFlags } := by
    rw [endResult, if_neg (not_not_intro heof), hpay, parseEof_write hvalid]
  obtain ⟨payload, hfirst⟩ : ∃ payload, packet.payload = 0xFE :: payload := by
    rw [hpay, eofPayload]
    exact ⟨_, rfl⟩
  rw [← hpay] at hlen
  rw [receiveRows_cons hfits, hend]
  split
  · rename_i hnil
    rw [hfirst] at hnil
    cases hnil
  rename_i hcons
  rw [hfirst] at hcons
  cases hcons
  rw [if_pos ⟨rfl, hlen⟩]

theorem serverError_write (hvalid : err.Valid (isModern capabilities)) (message : String) :
    serverError (errPayload (isModern capabilities) err) capabilities message =
      Part.serverErr err := by
  obtain ⟨parsed, hparse, hcode, hmsg⟩ := parseErr_write hvalid
  rw [serverError, hparse, Part.serverErr]
  simp only [hcode, hmsg]

theorem receiveRows_err (hpay : packet.payload = errPayload (isModern capabilities) err)
    (hvalid : err.Valid (isModern capabilities)) (hfits : packet.size ≤ capacity)
    (columnCount : Nat) (rs : MysqlResultSet) (rest : List Packet) :
    receiveRows (packetSource capacity) capabilities columnCount rs (packet :: rest) =
      .failed (Part.serverErr err) rest := by
  obtain ⟨payload, hfirst⟩ : ∃ payload, packet.payload = 0xFF :: payload := by
    rw [hpay, errPayload]
    exact ⟨_, rfl⟩
  rw [receiveRows_cons hfits]
  split
  · rename_i hnil
    rw [hfirst] at hnil
    cases hnil
  rename_i hcons
  rw [hfirst] at hcons
  cases hcons
  rw [if_neg (fun h => absurd h.1 (by decide)), if_pos rfl, hpay, serverError_write hvalid]

theorem receiveResultSet_head (hcols : columns ≠ []) (hcount : columns.length < 2 ^ 64)
    (hvalid : ∀ column ∈ columns, column.Valid)
    (H : Carry capacity packets (Part.head (isModern capabilities) columns columnsEof))
    (heof : capabilities &&& CLIENT_DEPRECATE_EOF = 0) (rest : List Packet) :
    receiveResultSet (packetSource capacity) capabilities (packets ++ rest) =
      receiveRows (packetSource capacity) capabilities columns.length { fields := columns }
        rest := by
  rw [Part.head] at H
  obtain ⟨packet, packets, rfl, hpay, hfits, H⟩ := H.cons
  obtain ⟨definitions, ends, rfl, hdefinitions, H⟩ := H.append
  obtain ⟨eof, ends, rfl, -, heofFits, H⟩ := H.cons
  obtain ⟨first, bytes, hfirst, -, herr, hok, -⟩ := head_writeLenEncInt columns.length
  have hread := readLenEncInt_write hcount []
  rw [append_nil, ← hpay] at hread
  rw [hfirst] at hpay
  have hpos := length_pos_of_ne_nil hcols
  rw [H.nil, receiveResultSet, cons_append, recvPacket_packets hfits, append_assoc]
  simp only [Outcome.bind]
  split
  · rename_i hnil
    rw [hpay] at hnil
    cases hnil
  rename_i hcons
  rw [hpay] at hcons
  cases hcons
  rw [if_neg herr, if_neg (fun hzero => by have := hok hzero; omega), hread]
  simp only
  rw [receiveColumns_columns hdefinitions hvalid]
  simp only [nil_append, cons_append]
  rw [if_neg (not_not_intro heof), recvPacket_packets heofFits]

theorem receive_part {part : Part} (hvalid : part.Valid (isModern capabilities))
    (H : Carry capacity packets (part.payloads (isModern capabilities)))
    (hcap : capacity < 0x1000000) (heof : capabilities &&& CLIENT_DEPRECATE_EOF = 0)
    (rest : List Packet) :
    receiveResultSet (packetSource capacity) capabilities (packets ++ rest) =
      ended part.result rest := by
  cases part with
  | ok ok =>
    obtain ⟨packet, packets, rfl, hpay, hfits, H⟩ := H.cons
    obtain ⟨payload, hfirst⟩ : ∃ payload, okPayload (isModern capabilities) ok = 0x00 :: payload := by
      rw [okPayload, append_assoc, append_assoc, append_assoc]
      exact ⟨_, rfl⟩
    rw [H.nil, cons_append, receiveResultSet, recvPacket_packets hfits]
    simp only [Outcome.bind]
    rw [hpay, parseOk_write hvalid, hfirst]
    rfl
  | err err =>
    obtain ⟨packet, packets, rfl, hpay, hfits, H⟩ := H.cons
    obtain ⟨payload, hfirst⟩ : ∃ payload,
        errPayload (isModern capabilities) err = 0xFF :: payload := by
      rw [errPayload, append_assoc, append_assoc]
      exact ⟨_, rfl⟩
    rw [H.nil, cons_append, receiveResultSet, recvPacket_packets hfits]
    simp only [Outcome.bind]
    rw [hpay, serverError_write hvalid, hfirst]
    rfl
  | table columns columnsEof rows eof =>
    obtain ⟨hrows, -, heofValid⟩ := hvalid
    obtain ⟨front, packets, rfl, hfront, H⟩ := H.append
    obtain ⟨lines, packets, rfl, hlines, H⟩ := H.append
    obtain ⟨packet, packets, rfl, hpay, hfits, H⟩ := H.cons
    rw [H.nil, append_assoc, append_assoc,
      receiveResultSet_head hrows.columns_pos hrows.columns_lt hrows.column hfront heof,
      receiveRows_rows hlines hcap (length_pos_of_ne_nil hrows.columns_pos)
        hrows.row_length hrows.storable, singleton_append,
      receiveRows_eof heof hpay heofValid hfits]
    rfl
  | cut columns columnsEof rows err =>
  obtain ⟨hrows, -, herr⟩ := hvalid
  obtain ⟨front, packets, rfl, hfront, H⟩ := H.append
  obtain ⟨lines, packets, rfl, hlines, H⟩ := H.append
  obtain ⟨packet, packets, rfl, hpay, hfits, H⟩ := H.cons
  rw [H.nil, append_assoc, append_assoc,
    receiveResultSet_head hrows.columns_pos hrows.columns_lt hrows.column hfront heof,
    receiveRows_rows hlines hcap (length_pos_of_ne_nil hrows.columns_pos)
      hrows.row_length hrows.storable, singleton_append, receiveRows_err hpay herr hfits]
  rfl

end Reading

end Galay.Mysql
