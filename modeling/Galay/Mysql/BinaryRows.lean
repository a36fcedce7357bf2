import Galay.Mysql.Agreement
import Galay.Mysql.Alignment

/-!
# Rows of prepared statements

A server answers COM_STMT_EXECUTE with rows in a format of their own, but the clients read them as
rows of a query. A row comes out as it was sent exactly if all its values are empty strings
(`parseTextRow_binaryRow_iff`).
-/

namespace Galay.Mysql

open List

/-! ## Statements -/

/-- The bits that say which values are NULL, `offset` bits into the first byte. -/
def nullBitmap (offset : Nat) (values : List (Option Bytes)) : Bytes :=
  Lib.packBits (List.replicate offset false ++ values.map Option.isNone)

/-- The values that are not NULL. -/
def binaryValues (values : List (Option Bytes)) : Bytes :=
  values.flatMap fun
    | none => []
    | some str => writeLenEncString str

def COM_STMT_EXECUTE : UInt8 := 0x17

def VAR_STRING : UInt8 := 0xFD

/-- The type of each parameter. Those without one are strings. -/
def paramTypeBytes : (params : Nat) → (paramTypes : Bytes) → Bytes
  | 0, _ => []
  | params + 1, [] => VAR_STRING :: 0x00 :: paramTypeBytes params []
  | params + 1, type :: types => type :: 0x00 :: paramTypeBytes params types

/-- The packet of the command, or nothing if it does not fit one packet. -/
def encodeStmtExecute (stmtId : UInt32) (params : List (Option Bytes)) (paramTypes : Bytes)
    (sequenceId : UInt8) : Bytes :=
  let payload := [COM_STMT_EXECUTE] ++ Lib.toLe 4 stmtId.toNat ++ [0x00] ++ Lib.toLe 4 1 ++
    if params = [] then []
    else nullBitmap 0 params ++ [0x01] ++ paramTypeBytes params.length paramTypes ++
      binaryValues params
  if payload.length > MYSQL_MAX_PACKET_SIZE then
    []
  else
    Lib.toLe 3 payload.length ++ [sequenceId] ++ payload

namespace MysqlClient

def stmtExecute (client : MysqlClient) (stmtId : UInt32) (params : List (Option Bytes))
    (paramTypes answer : Bytes) : Outcome Connection MysqlResultSet :=
  let cmd := encodeStmtExecute stmtId params paramTypes 0
  if cmd = [] then
    .failed ⟨.MYSQL_ERROR_INVALID_PARAM, 0,
      ascii "MySQL statement execute exceeds single-packet limit"⟩ client.connection
  else
    receiveResultSet Connection.source client.serverCapabilities (client.sent answer)

end MysqlClient

/-- The payload of a row in the binary protocol. -/
def binaryRow (row : MysqlRow) : Bytes := 0x00 :: (nullBitmap 2 row ++ binaryValues row)

/-! ## What is read from a row

The byte 0xFB is the NULL of the text protocol. A row that comes out as it was sent has as many of
these bytes in its bitmap as it has NULLs, and it has not: such a byte stands for seven NULLs. -/

theorem count_writeLenEncInt (h : readLenEncInt data = .ok (val, consumed)) :
    consumed ≤ data.length ∧ (writeLenEncInt val).count 0xFB ≤ (data.take consumed).count 0xFB := by
  -- what is written again are the low bytes of what was read
  have hlow {bytes : Bytes} (first : UInt8) {width : Nat} (hwidth : width ≤ bytes.length)
      (hfirst : first ≠ 0xFB) :
      (first :: Lib.toLe width (Lib.ofLe bytes)).count 0xFB ≤ bytes.count 0xFB := by
    rw [count_cons_of_ne hfirst, Lib.toLe_ofLe hwidth]
    exact (take_sublist _ _).count_le _
  have hsmall {val : Nat} (hval : val < 251) : ([UInt8.ofNat val] : Bytes).count 0xFB = 0 := by
    rw [count_singleton, if_neg]
    intro heq
    have hnat := congrArg UInt8.toNat (beq_iff_eq.1 heq)
    rw [Lib.toNat_byte (by omega)] at hnat
    exact absurd hval (by rw [hnat]; decide)
  have hword {first : UInt8} {rest : Bytes} {width : Nat} (hlen : width ≤ rest.length)
      (hwidth : width = 2 ∨ width = 3 ∨ width = 8) :
      (writeLenEncInt (readUint width rest)).count 0xFB ≤
        ((first :: rest).take (width + 1)).count 0xFB := by
    have htake : (rest.take width).length = width := length_take_of_le hlen
    have hbound := Lib.ofLe_lt (rest.take width)
    rw [htake] at hbound
    refine Nat.le_trans ?_ (take_succ_cons ▸ count_le_count_cons)
    rw [readUint, writeLenEncInt]
    split
    · rw [hsmall (by assumption)]
      exact Nat.zero_le _
    split
    · exact hlow _ (by omega) (by decide)
    rename_i hlarge
    split
    · refine hlow _ ?_ (by decide)
      rcases hwidth with rfl | hwidth
      · exact absurd hbound (by omega)
      omega
    rename_i hlarger
    refine hlow _ ?_ (by decide)
    rcases hwidth with rfl | rfl | rfl
    · exact absurd hbound (by omega)
    · exact absurd hbound (by omega)
    omega
  cases data with
  | nil => cases h
  | cons first rest =>
  rw [readLenEncInt] at h
  split at h
  · rename_i hfirst
    cases h
    have hlt : first.toNat < 251 := hfirst
    refine ⟨Nat.succ_pos _, ?_⟩
    rw [writeLenEncInt, if_pos hlt, hsmall hlt]
    exact Nat.zero_le _
  split at h
  · rename_i hnull
    cases h
    subst hnull
    refine ⟨Nat.succ_pos _, ?_⟩
    rw [take_succ_cons, take_zero]
    decide
  split at h
  · split at h
    · cases h
    cases h
    rw [length_cons] at *
    exact ⟨by omega, hword (by omega) (.inl rfl)⟩
  split at h
  · split at h
    · cases h
    cases h
    rw [length_cons] at *
    exact ⟨by omega, hword (by omega) (.inr (.inl rfl))⟩
  split at h
  · split at h
    · cases h
    cases h
    rw [length_cons] at *
    exact ⟨by omega, hword (by omega) (.inr (.inr rfl))⟩
  cases h

theorem count_writeLenEncString (h : readLenEncStringView data = .ok (str, consumed)) :
    (writeLenEncString str).count 0xFB ≤ (data.take consumed).count 0xFB := by
  rw [readLenEncStringView] at h
  split at h
  · cases h
  rename_i strSize intConsumed hint
  obtain ⟨hle, hcount⟩ := count_writeLenEncInt hint
  split at h
  · cases h
  split at h
  · cases h
  cases h
  have hlen : ((data.drop intConsumed).take strSize).length = strSize := by
    rw [length_take, length_drop]
    omega
  rw [writeLenEncString, hlen, take_add, count_append, count_append]
  exact Nat.add_le_add_right hcount _

variable {row : MysqlRow}

theorem count_textColumns (h : textColumns data columns pos = .ok row) :
    row.count none + (binaryValues row).count 0xFB ≤ (data.drop pos).count 0xFB := by
  induction columns generalizing pos row with
  | zero =>
    cases h
    exact Nat.zero_le _
  | succ columns ih =>
  rw [textColumns] at h
  split at h
  · cases h
  rename_i hpos
  split at h
  · rename_i hnull
    split at h
    · cases h
    rename_i row hrow
    cases h
    have hrest := ih hrow
    rw [drop_eq_getElem_cons (by omega), hnull, count_cons_self, count_cons_self,
      binaryValues, flatMap_cons, nil_append]
    rw [binaryValues] at hrest
    omega
  split at h
  · cases h
  rename_i view consumed hview
  split at h
  · cases h
  rename_i row hrow
  cases h
  have hrest := ih hrow
  have hstring := count_writeLenEncString hview
  have hsplit := congrArg (List.count 0xFB) (take_append_drop consumed (data.drop pos))
  rw [count_append, drop_drop] at hsplit
  rw [count_cons_of_ne (by simp), binaryValues, flatMap_cons, count_append]
  rw [binaryValues] at hrest
  simp only
  omega

/-- A byte of a bitmap that looks like NULL stands for more than one of them. -/
theorem two_mul_count_packBits (bits : List Bool) :
    2 * (Lib.packBits bits).count 0xFB ≤ bits.count true := by
  fun_induction Lib.packBits bits with
  | case1 => exact Nat.le_refl _
  | case2 bits _ ih =>
  have hsplit := congrArg (List.count true) (take_append_drop 8 bits)
  rw [count_append] at hsplit
  by_cases hbyte : UInt8.ofNat (Lib.ofBits (bits.take 8)) = 0xFB
  · have hlt := Lib.ofBits_lt (bits.take 8)
    have hpow : 2 ^ (bits.take 8).length ≤ 2 ^ 8 :=
      Nat.pow_le_pow_right (by decide) (length_take_le _ _)
    have hnat := congrArg UInt8.toNat hbyte
    rw [Lib.toNat_byte (by omega)] at hnat
    have htwo : 2 ≤ (bits.take 8).count true := by
      generalize bits.take 8 = byte at hnat
      cases byte with
      | nil => cases hnat
      | cons first more =>
      cases more with
      | nil => cases first <;> cases hnat
      | cons second more =>
      have hnat : first.toNat + 2 * (second.toNat + 2 * Lib.ofBits more) = 251 := hnat
      cases first with
      | false => simp only [Bool.toNat_false] at hnat; omega
      | true =>
      cases second with
      | false => simp only [Bool.toNat_false, Bool.toNat_true] at hnat; omega
      | true =>
      rw [count_cons_self, count_cons_self]
      omega
    rw [hbyte, count_cons_self]
    omega
  rw [count_cons_of_ne hbyte]
  omega

theorem count_map_isNone (row : MysqlRow) : (row.map Option.isNone).count true = row.count none := by
  induction row with
  | nil => rfl
  | cons value row ih => cases value <;> simp [ih]

theorem no_null_of_parseTextRow
    (h : parseTextRow (binaryRow row) columnCount = .ok row) : row.count none = 0 := by
  have hcount := count_textColumns h
  have hbitmap := two_mul_count_packBits (List.replicate 2 false ++ row.map Option.isNone)
  rw [count_append, count_replicate, if_neg (by decide), count_map_isNone] at hbitmap
  rw [drop_zero, binaryRow, count_cons_of_ne (by decide), count_append, nullBitmap] at hcount
  omega

theorem nullBitmap_of_no_null (h : row.count none = 0) :
    nullBitmap 2 row = List.replicate ((row.length + 9) / 8) 0 := by
  have hfalse : row.map Option.isNone = List.replicate row.length false := by
    apply List.eq_replicate_iff.2
    refine ⟨length_map .., fun bit hbit => ?_⟩
    obtain ⟨value, hval, rfl⟩ := List.mem_map.1 hbit
    cases value with
    | none => exact absurd hval (List.count_eq_zero.1 h)
    | some => rfl
  rw [nullBitmap, hfalse, replicate_append_replicate, Lib.packBits_replicate_false,
    show 2 + row.length + 7 = row.length + 9 by omega]

/-- Zeros are empty strings, and behind them stand the strings that were read. -/
theorem textColumns_zeros (hdata : data.drop pos = List.replicate (zeros + 1) 0 ++ binaryValues row)
    (hrow : row.count none = 0) :
    textColumns data row.length pos = .ok row ↔ ∀ value ∈ row, value = some [] := by
  induction row generalizing pos with
  | nil => exact ⟨fun _ _ hval => absurd hval not_mem_nil, fun _ => rfl⟩
  | cons value row ih =>
  rw [replicate_succ, cons_append] at hdata
  have hlen := congrArg List.length hdata
  rw [length_drop, length_cons] at hlen
  have hnull : data[pos]? = some 0 := by
    rw [← Nat.add_zero pos, ← getElem?_drop, hdata]
    rfl
  rw [getElem?_eq_getElem (by omega), Option.some.injEq] at hnull
  have hread : readLenEncStringView (data.drop pos) = .ok ([], 1) := by
    rw [hdata, readLenEncStringView, readLenEncInt, if_pos (by decide)]
    rfl
  have hcons : textColumns data (value :: row).length pos = .ok (value :: row) ↔
      value = some [] ∧ textColumns data row.length (pos + 1) = .ok row := by
    rw [length_cons, textColumns, dif_neg (by omega), if_neg (by rw [hnull]; decide)]
    simp only [hread]
    split
    · rename_i herr
      exact ⟨by rintro ⟨⟩, fun h => by rw [herr] at h; cases h.2⟩
    rename_i other hok
    rw [hok, Except.ok.injEq, Except.ok.injEq, List.cons.injEq]
    exact ⟨fun h => ⟨h.1.symm, h.2⟩, fun h => ⟨h.1.symm, h.2⟩⟩
  rw [hcons, forall_mem_cons]
  refine and_congr_right fun hval => ih ?_ ?_
  · subst hval
    have hnext : data.drop (pos + 1) =
        List.replicate zeros 0 ++ ([0] ++ binaryValues row) := by
      rw [← drop_drop, hdata]
      rfl
    rw [hnext, ← append_assoc, ← replicate_succ']
  subst hval
  rw [← hrow, count_cons_of_ne (by simp)]

/-- A row that is read as a row of a query is what was sent if and only if all its values are empty
strings. -/
theorem parseTextRow_binaryRow_iff (row : MysqlRow) :
    parseTextRow (binaryRow row) row.length = .ok row ↔ ∀ value ∈ row, value = some [] := by
  have hiff (hnull : row.count none = 0) : parseTextRow (binaryRow row) row.length = .ok row ↔
      ∀ value ∈ row, value = some [] := by
    have hdata : (binaryRow row).drop 0 =
        List.replicate ((row.length + 9) / 8 + 1) 0 ++ binaryValues row := by
      rw [drop_zero, binaryRow, nullBitmap_of_no_null hnull, ← cons_append, ← replicate_succ]
    exact textColumns_zeros hdata hnull
  constructor
  · intro h
    exact (hiff (no_null_of_parseTextRow h)).1 h
  intro h
  refine (hiff (List.count_eq_zero.2 fun hnull => ?_)).2 h
  cases h none hnull

/-! ## What a call has taken -/

/-- All but the rest was received, so the ring buffer could hold it. -/
def Took (capacity : Nat) (packets rest : List Packet) : Prop :=
  ∃ taken, packets = taken ++ rest ∧ ∀ packet ∈ taken, packet.size ≤ capacity

section Took

variable {capacity capabilities : Nat} {packets rest : List Packet} {rs rs' : MysqlResultSet}

theorem Took.refl (packets : List Packet) : Took capacity packets packets :=
  ⟨[], rfl, fun _ hpkt => absurd hpkt not_mem_nil⟩

theorem Took.trans {next : List Packet} (H : Took capacity packets next)
    (H' : Took capacity next rest) : Took capacity packets rest := by
  obtain ⟨first, rfl, hfirst⟩ := H
  obtain ⟨second, rfl, hsecond⟩ := H'
  refine ⟨first ++ second, (append_assoc ..).symm, fun packet hpkt => ?_⟩
  rcases List.mem_append.1 hpkt with hpkt | hpkt
  · exact hfirst packet hpkt
  exact hsecond packet hpkt

theorem Took.fits (H : Took capacity packets []) : ∀ packet ∈ packets, packet.size ≤ capacity := by
  obtain ⟨taken, htaken, hfits⟩ := H
  rw [append_nil] at htaken
  exact htaken ▸ hfits

theorem took_cons (h : packet.size ≤ capacity) : Took capacity (packet :: packets) packets :=
  ⟨[packet], rfl, fun _ hother => List.mem_singleton.1 hother ▸ h⟩

theorem took_recvPacket (h : (packetSource capacity).recvPacket packets = .done packet rest) :
    packets = packet :: rest ∧ packet.size ≤ capacity := by
  cases packets with
  | nil => cases h
  | cons first packets =>
  have h : (if first.size ≤ capacity then Outcome.done first packets
    else .failed ringBufferExhausted (first :: packets)) = .done packet rest := h
  split at h
  · rename_i hfits
    cases h
    exact ⟨rfl, hfits⟩
  cases h

theorem Outcome.bind_eq_done {x : Outcome σ α} {next : α → σ → Outcome σ β}
    {value : β} {s : σ} (h : x.bind next = .done value s) :
    ∃ first s', x = .done first s' ∧ next first s' = .done value s := by
  cases x with
  | done first s' => exact ⟨first, s', rfl, h⟩
  | failed => cases h
  | waits => cases h

theorem took_receiveColumns
    (h : receiveColumns (packetSource capacity) columns rs packets = .done rs' rest) :
    Took capacity packets rest := by
  induction columns generalizing rs packets with
  | zero =>
    cases h
    exact .refl _
  | succ columns ih =>
  obtain ⟨packet, next, hrecv, hnext⟩ := Outcome.bind_eq_done h
  obtain ⟨rfl, hfits⟩ := took_recvPacket hrecv
  split at hnext
  · cases hnext
  exact (took_cons hfits).trans (ih hnext)

@[simp] theorem rows_endResult (payload : Bytes) :
    (endResult rs payload capabilities).rows = rs.rows := by
  rw [endResult]
  split
  · cases parseOk payload capabilities <;> rfl
  cases parseEof payload <;> rfl

/-- The rows of a result come behind those that were there. -/
theorem took_receiveRows
    (h : receiveRows (packetSource capacity) capabilities columnCount rs packets = .done rs' rest) :
    Took capacity packets rest ∧ ∃ rows, rs'.rows = rs.rows ++ rows := by
  induction packets generalizing rs with
  | nil =>
    rw [receiveRows_nil] at h
    cases h
  | cons packet packets ih =>
  by_cases hfits : packet.size ≤ capacity
  · rw [receiveRows_cons hfits] at h
    split at h
    · cases h
    split at h
    · cases h
      exact ⟨took_cons hfits, [], by rw [rows_endResult, append_nil]⟩
    split at h
    · cases h
    split at h
    · cases h
    rename_i row _
    obtain ⟨htook, rows, hrows⟩ := ih h
    exact ⟨(took_cons hfits).trans htook, row :: rows, by
      rw [hrows, MysqlResultSet.addRow, append_assoc, singleton_append]⟩
  rw [receiveRows] at h
  have hfails : (packetSource capacity).recvPacket (packet :: packets) =
      .failed ringBufferExhausted (packet :: packets) := if_neg hfits
  split at h
  · cases h
  · cases h
  rename_i hrecv
  rw [hfails] at hrecv
  cases hrecv

theorem took_receiveResultSet
    (h : receiveResultSet (packetSource capacity) capabilities packets = .done rs rest) :
    Took capacity packets rest := by
  obtain ⟨packet, next, hrecv, hanswer⟩ := Outcome.bind_eq_done h
  clear h
  obtain ⟨rfl, hfits⟩ := took_recvPacket hrecv
  refine (took_cons hfits).trans ?_
  rename' hanswer => h
  split at h
  · cases h
  split at h
  · cases h
  split at h
  · split at h
    · cases h
    cases h
    exact .refl _
  split at h
  · cases h
  obtain ⟨columns, next, hcols, h⟩ := Outcome.bind_eq_done h
  refine (took_receiveColumns hcols).trans ?_
  split at h
  · exact (took_receiveRows h).1
  obtain ⟨eof, next, hrecv, hrows⟩ := Outcome.bind_eq_done h
  obtain ⟨rfl, hfits⟩ := took_recvPacket hrecv
  exact (took_cons hfits).trans (took_receiveRows hrows).1

theorem took_feed {awaitable : Awaitable}
    (h : awaitable.feed expectedResults capabilities maxFields capacity machine packets =
      .done (.results results) rest) : Took capacity packets rest := by
  induction packets generalizing machine with
  | nil =>
    rw [Awaitable.feed] at h
    split at h
    · cases h
      exact .refl _
    cases h
  | cons packet packets ih =>
  rw [Awaitable.feed] at h
  split at h
  · cases h
    exact .refl _
  split at h
  · rename_i hfits
    split at h
    · exact (took_cons hfits).trans (ih h)
    · cases h
    cases h
  cases h

end Took

/-- Rows that come out as they were sent were read from their own packets. -/
theorem parseTextRow_of_receiveRows {rows : List MysqlRow}
    (H : Carry capacity packets (rows.map encode))
    (hencode : ∀ row, ∃ first payload, encode row = first :: payload ∧ first ≠ 0xFE ∧ first ≠ 0xFF)
    (h : receiveRows (packetSource capacity) capabilities columnCount rs (packets ++ rest) =
      .done rs' rest') (hrows : rs'.rows = rs.rows ++ rows) :
    ∀ row ∈ rows, parseTextRow (encode row) columnCount = .ok row := by
  induction rows generalizing packets rs with
  | nil => exact fun _ hrow => absurd hrow not_mem_nil
  | cons row rows ih =>
  obtain ⟨packet, packets, rfl, hpay, hfits, hpackets⟩ := H.cons
  obtain ⟨first, payload, hfirst, hend, hcut⟩ := hencode row
  rw [cons_append, receiveRows_cons hfits, hpay, hfirst] at h
  simp only at h
  rw [if_neg (fun h => hend h.1), if_neg hcut, ← hfirst] at h
  split at h
  · cases h
  rename_i parsed hparsed
  obtain ⟨-, more, hmore⟩ := took_receiveRows h
  have hsame : parsed :: more = row :: rows := by
    rw [hmore, MysqlResultSet.addRow, append_assoc] at hrows
    exact append_cancel_left hrows
  obtain ⟨rfl, rfl⟩ := List.cons.inj hsame
  rw [forall_mem_cons]
  exact ⟨hparsed, ih hpackets h hmore⟩

/-! ## Tables of a statement -/

/-- A table as a server sends it for a statement. -/
structure BinaryTable (modern : Bool) where
  columns : List MysqlField
  columnsEof : EofPacket
  rows : List MysqlRow
  eof : EofPacket
  packets : List Packet
  valid : Part.ValidRows columns rows
  eof_valid : eof.Valid modern
  payload_eq : packets.map (·.payload) =
    Part.head modern columns columnsEof ++ (rows.map binaryRow ++ [eofPayload modern eof])
  size_lt : ∀ packet ∈ packets, packet.payload.length < 2 ^ 24

namespace BinaryTable

variable {capabilities : Nat} (table : BinaryTable (isModern capabilities))

def wire : Bytes := table.packets.flatMap Packet.wire

/-- There is nothing in the rows but empty strings. -/
def AllEmpty : Prop := ∀ row ∈ table.rows, ∀ value ∈ row, value = some []

def Fits (capacity : Nat) : Prop := ∀ packet ∈ table.packets, packet.size ≤ capacity

variable {table}

theorem head_binaryRow (row : MysqlRow) :
    ∃ first payload, binaryRow row = first :: payload ∧ first ≠ 0xFE ∧ first ≠ 0xFF :=
  ⟨0x00, _, rfl, by decide, by decide⟩

theorem parseTextRow_iff (hrow : row ∈ table.rows) :
    parseTextRow (binaryRow row) table.columns.length = .ok row ↔ ∀ value ∈ row, value = some [] := by
  rw [← table.valid.row_length row hrow]
  exact parseTextRow_binaryRow_iff row

theorem receiveResultSet_iff (heof : capabilities &&& CLIENT_DEPRECATE_EOF = 0) (capacity : Nat) :
    (∃ rs, receiveResultSet (packetSource capacity) capabilities table.packets = .done rs [] ∧
      rs.rows = table.rows) ↔ table.AllEmpty ∧ table.Fits capacity := by
  have hiff (hfits : table.Fits capacity) :
      (∃ rs, receiveResultSet (packetSource capacity) capabilities table.packets = .done rs [] ∧
        rs.rows = table.rows) ↔ table.AllEmpty := by
    have H : Carry capacity table.packets _ := ⟨table.payload_eq, hfits⟩
    obtain ⟨front, packets, hpackets, hfront, H⟩ := H.append
    obtain ⟨lines, packets, rfl, hlines, H⟩ := H.append
    obtain ⟨packet, packets, rfl, hpay, hfits, H⟩ := H.cons
    rw [hpackets, H.nil, receiveResultSet_head table.valid.columns_pos table.valid.columns_lt
      table.valid.column hfront heof]
    constructor
    · rintro ⟨rs, hreceive, hrows⟩ row hrow
      exact (parseTextRow_iff hrow).1
        (parseTextRow_of_receiveRows hlines head_binaryRow hreceive hrows row hrow)
    intro hempty
    rw [receiveRows_readAs hlines fun row hrow =>
        ⟨head_binaryRow row, (parseTextRow_iff hrow).2 (hempty row hrow)⟩,
      receiveRows_eof heof hpay table.eof_valid hfits]
    exact ⟨_, rfl, rfl⟩
  constructor
  · rintro ⟨rs, hreceive, hrows⟩
    have hfits : table.Fits capacity := (took_receiveResultSet hreceive).fits
    exact ⟨(hiff hfits).1 ⟨rs, hreceive, hrows⟩, hfits⟩
  rintro ⟨hempty, hfits⟩
  exact (hiff hfits).2 hempty

/-! ## From bytes to packets -/

theorem holds_nil_iff {connection : Connection} {packets : List Packet}
    (H : connection.Holds capacity packets) : connection.unread = [] ↔ packets = [] := by
  rw [H.unread_eq]
  cases packets with
  | nil => exact ⟨fun _ => rfl, fun _ => rfl⟩
  | cons packet packets =>
  refine ⟨fun h => ?_, nofun⟩
  have hlen := congrArg List.length h
  rw [flatMap_cons, length_append, packet.length_wire, Packet.size] at hlen
  exact absurd hlen (by rw [MYSQL_PACKET_HEADER_SIZE, length_nil]; omega)

theorem receiveResultSet_connection_iff (heof : capabilities &&& CLIENT_DEPRECATE_EOF = 0)
    (H : connection.Holds capacity table.packets) :
    (∃ rs next, receiveResultSet Connection.source capabilities connection = .done rs next ∧
      rs.rows = table.rows ∧ next.unread = []) ↔ table.AllEmpty ∧ table.Fits capacity := by
  rw [← receiveResultSet_iff heof]
  have hrelated := H.receiveResultSet capabilities
  constructor
  · rintro ⟨rs, next, hreceive, hrows, hunread⟩
    rw [hreceive] at hrelated
    generalize receiveResultSet (packetSource capacity) capabilities table.packets = x at hrelated
    cases hrelated with
    | done hnext => exact ⟨rs, by rw [(holds_nil_iff hnext).1 hunread], hrows⟩
  rintro ⟨rs, hreceive, hrows⟩
  rw [hreceive] at hrelated
  generalize receiveResultSet Connection.source capabilities connection = x at hrelated
  cases hrelated with
  | done hnext => exact ⟨rs, _, rfl, hrows, (holds_nil_iff hnext).2 rfl⟩

/-! ## The awaitable client -/

section Await

open Awaitable

variable {maxFields capacity : Nat}

theorem payload_ne (hpkt : packet ∈ table.packets) : packet.payload ≠ [] := by
  have hmem : packet.payload ∈ table.packets.map (·.payload) := mem_map_of_mem hpkt
  have hint (val : Nat) (rest : Bytes) : writeLenEncInt val ++ rest ≠ [] := by
    obtain ⟨first, bytes, hfirst, -⟩ := head_writeLenEncInt val
    rw [hfirst]
    exact cons_ne_nil _ _
  rw [table.payload_eq, Part.head, cons_append, mem_cons, mem_append,
    mem_append, mem_append, mem_singleton, mem_singleton] at hmem
  rcases hmem with hmem | (hmem | hmem) | hmem | hmem
  · rw [hmem, ← append_nil (writeLenEncInt _)]
    exact hint _ _
  · obtain ⟨column, -, hcolumn⟩ := List.mem_map.1 hmem
    rw [← hcolumn, columnPayload, writeLenEncString, append_assoc]
    exact hint _ _
  · rw [hmem]
    exact cons_ne_nil _ _
  · obtain ⟨row, -, hrow⟩ := List.mem_map.1 hmem
    rw [← hrow]
    exact cons_ne_nil _ _
  rw [hmem]
  exact cons_ne_nil _ _

variable {awaitable : Awaitable}

/-- A machine that waits for one result sees one header. -/
theorem phase_of_step {next : Machine} (hph : machine.phase ≠ .ReceivingHeader)
    (h : awaitable.step 1 capabilities maxFields machine payload first = .next next) :
    next.phase ≠ .ReceivingHeader := by
  rw [step] at h
  split at h
  · rename_i hhdr
    exact absurd hhdr hph
  · rw [stepColumn] at h
    split at h
    · cases h
    simp only at h
    split at h
    · cases h
      simp only
      split
      · rintro ⟨⟩
      rintro ⟨⟩
    cases h
    exact hph
  · cases h
    rintro ⟨⟩
  · rw [stepRow] at h
    split at h
    · cases h
      rw [finalizeCurrentResult, if_pos (by simp)]
      rintro ⟨⟩
    split at h
    · cases h
    split at h
    · cases h
    cases h
    exact hph
  cases h

/-- After the header every packet with a payload is as good as any other. -/
theorem soundRun_of_phase {packets : List Packet}
    (hph : machine.phase ≠ .ReceivingHeader) (hpay : ∀ packet ∈ packets, packet.payload ≠ [])
    (hfits : ∀ packet ∈ packets, packet.size ≤ capacity) :
    awaitable.SoundRun 1 capabilities maxFields capacity machine packets := by
  induction packets generalizing machine with
  | nil => trivial
  | cons packet packets ih =>
  rw [forall_mem_cons] at hpay hfits
  refine fun _ => ⟨⟨hfits.1, hpay.1, fun hhdr => absurd hhdr hph,
    fun hhdr => absurd hhdr hph⟩, fun next hstep => ?_⟩
  exact ih (phase_of_step hph hstep) hpay.2 hfits.2

theorem header (table : BinaryTable (isModern capabilities)) : ∃ packet packets first payload,
    table.packets = packet :: packets ∧ packet.payload = first :: payload ∧ first ≠ 0xFF ∧
      first ≠ 0x00 ∧ readLenEncInt (first :: payload) =
        .ok (table.columns.length, (first :: payload).length) := by
  have heq := table.payload_eq
  rw [Part.head, cons_append] at heq
  obtain ⟨packet, packets, hpackets, hpay, -⟩ := List.map_eq_cons_iff.1 heq
  obtain ⟨first, payload, hfirst, -, herr, hok, -⟩ := head_writeLenEncInt table.columns.length
  have hpos := length_pos_of_ne_nil table.valid.columns_pos
  have hread := readLenEncInt_write table.valid.columns_lt []
  rw [append_nil, hfirst] at hread
  exact ⟨packet, packets, first, payload, hpackets, hpay.trans hfirst, herr,
    fun hzero => by have := hok hzero; omega, hread⟩

theorem stepHeader_eq {payload : Bytes} (herr : first ≠ 0xFF) (hok : first ≠ 0x00)
    (hread : readLenEncInt (first :: payload) = .ok (columnCount, consumed)) :
    awaitable.stepHeader 1 capabilities maxFields machine (first :: payload) first =
      if columnCount > maxFields then .thrown
      else .next { machine with columnCount, columnsReceived := 0, phase := .ReceivingColumns } := by
  rw [stepHeader, if_neg herr, if_neg hok, hread]

theorem soundRun (hfits : table.Fits capacity) (hcols : table.columns.length ≤ maxFields) :
    MysqlStmtExecuteAwaitable.SoundRun 1 capabilities maxFields capacity (Machine.start 1)
      table.packets := by
  obtain ⟨packet, packets, first, payload, hpackets, hpay, herr, hok, hread⟩ := table.header
  have hall : ∀ packet ∈ table.packets, packet.payload ≠ [] := fun _ => payload_ne
  rw [Fits, hpackets, forall_mem_cons] at hfits
  rw [hpackets, forall_mem_cons] at hall
  rw [hpackets]
  refine fun _ => ⟨⟨hfits.1, hall.1, ?_, ?_⟩, fun next hstep => ?_⟩
  · intro _ _ _ columnCount consumed hcount
    rw [hpay, hread] at hcount
    cases hcount
    exact ⟨length_pos_of_ne_nil table.valid.columns_pos, hcols⟩
  · intro _ hzero
    rw [hpay] at hzero
    exact absurd hzero hok
  have hph : next.phase ≠ .ReceivingHeader := by
    rw [hpay, headD_cons] at hstep
    have hstep : MysqlStmtExecuteAwaitable.stepHeader 1 capabilities maxFields (Machine.start 1)
      (first :: payload) first = .next next := hstep
    rw [stepHeader_eq herr hok hread, if_neg (Nat.not_lt.2 hcols)] at hstep
    cases hstep
    exact nofun
  exact soundRun_of_phase hph hall.2 hfits.2

theorem receiveResultSets_one {source : Source σ} {s next : σ} :
    receiveResultSets source capabilities 1 [] s = .done [rs] next ↔
      receiveResultSet source capabilities s = .done rs next := by
  rw [receiveResultSets]
  cases receiveResultSet source capabilities s with
  | done value rest => simp [Outcome.bind, receiveResultSets]
  | failed => exact ⟨by rintro ⟨⟩, by rintro ⟨⟩⟩
  | waits => exact ⟨by rintro ⟨⟩, by rintro ⟨⟩⟩

/-- The awaitable client on a table that it can take. -/
theorem run_iff (beyond : Bytes → UInt8)
    (H : connection.Holds capacity table.packets) (hfits : table.Fits capacity)
    (hcols : table.columns.length ≤ maxFields) :
    (∃ rs next, MysqlStmtExecuteAwaitable.run 1 capabilities maxFields beyond (Machine.start 1)
        connection = .done (.results [rs]) next ∧ rs.rows = table.rows ∧ next.unread = []) ↔
      ∃ rs next, receiveResultSet Connection.source capabilities connection = .done rs next ∧
        rs.rows = table.rows ∧ next.unread = [] := by
  have hsound : MysqlStmtExecuteAwaitable.SoundRun 1 capabilities maxFields (min capacity capacity)
      (Machine.start 1) table.packets := by
    rw [Nat.min_self]
    exact soundRun hfits hcols
  have hagree := run_agrees MysqlStmtExecuteAwaitable 1 capabilities maxFields beyond table.packets
    capacity capacity connection connection H H hsound
  constructor
  · rintro ⟨rs, next, hrun, hrows, hunread⟩
    rw [hrun] at hagree
    generalize hsync : receiveResultSets Connection.source capabilities 1 [] connection = x at hagree
    cases hagree with
    | done hrest => exact ⟨rs, _, receiveResultSets_one.1 hsync, hrows, hrest.trans hunread⟩
  rintro ⟨rs, next, hreceive, hrows, hunread⟩
  rw [receiveResultSets_one.2 hreceive] at hagree
  generalize hasync : MysqlStmtExecuteAwaitable.run 1 capabilities maxFields beyond
    (Machine.start 1) connection = x at hagree
  cases hagree with
  | done hrest => exact ⟨rs, _, rfl, hrows, hrest.symm.trans hunread⟩

theorem payloadRun_of_ne {packets : List Packet}
    (hpay : ∀ packet ∈ packets, packet.payload ≠ []) :
    awaitable.PayloadRun expectedResults capabilities maxFields machine packets := by
  induction packets generalizing machine with
  | nil => trivial
  | cons packet packets ih =>
  rw [forall_mem_cons] at hpay
  exact fun _ => ⟨hpay.1, fun next _ => ih hpay.2⟩

/-- What the machine has taken as a whole fits its ring buffer, and its vector the columns. -/
theorem fits_of_run {next : Connection} (H : connection.Holds capacity table.packets)
    (hrun : MysqlStmtExecuteAwaitable.run 1 capabilities maxFields beyond (Machine.start 1)
      connection = .done (.results results) next) (hunread : next.unread = []) :
    table.Fits capacity ∧ table.columns.length ≤ maxFields := by
  have hrelated : Outcome.Related (fun connection packets => connection.Holds capacity packets)
      (MysqlStmtExecuteAwaitable.run 1 capabilities maxFields beyond (Machine.start 1) connection)
      _ := run_related H (payloadRun_of_ne fun _ => payload_ne)
  rw [hrun] at hrelated
  generalize hfeed : MysqlStmtExecuteAwaitable.feed 1 capabilities maxFields capacity
    (Machine.start 1) table.packets = x at hrelated
  cases hrelated with
  | done hnext =>
  rw [(holds_nil_iff hnext).1 hunread] at hfeed
  have hfits : table.Fits capacity := (took_feed hfeed).fits
  refine ⟨hfits, Nat.le_of_not_lt fun hmany => ?_⟩
  obtain ⟨packet, packets, first, payload, hpackets, hpay, herr, hok, hread⟩ := table.header
  rw [Fits, hpackets, forall_mem_cons] at hfits
  have hstep : MysqlStmtExecuteAwaitable.step 1 capabilities maxFields (Machine.start 1)
      packet.payload (packet.payload.headD 0) = .thrown := by
    rw [hpay, headD_cons]
    exact (stepHeader_eq herr hok hread).trans (if_pos hmany)
  rw [hpackets, feed, if_neg (by decide), if_pos hfits.1, hstep] at hfeed
  cases hfeed

end Await

end BinaryTable

/-- Both clients return the rows of a statement and take their packets, no more and no less, if and
only if there is nothing but empty strings in them and the packets fit the ring buffers. -/
theorem stmtExecute_rows_iff (withDatabase : Bool) (serverCapabilities : Nat)
    (table : BinaryTable (isModern (negotiate withDatabase serverCapabilities)))
    (stmtId : UInt32) (params : List (Option Bytes)) (paramTypes : Bytes)
    (hsent : encodeStmtExecute stmtId params paramTypes 0 ≠ []) (connection : Connection)
    (hidle : connection.Holds MysqlClient.kRecvBufferCapacity []) (capacity maxFields : Nat)
    (beyond : Bytes → UInt8) (awaiting : Connection)
    (hawaiting : awaiting.Holds capacity table.packets) :
    ((∃ rs next, MysqlClient.stmtExecute ⟨connection, negotiate withDatabase serverCapabilities⟩
        stmtId params paramTypes table.wire = .done rs next ∧ rs.rows = table.rows ∧
          next.unread = []) ↔
      table.AllEmpty ∧ table.Fits MysqlClient.kRecvBufferCapacity) ∧
    ((∃ rs next, MysqlStmtExecuteAwaitable.run 1 (negotiate withDatabase serverCapabilities)
        maxFields beyond (Machine.start 1) awaiting = .done (.results [rs]) next ∧
          rs.rows = table.rows ∧ next.unread = []) ↔
      table.AllEmpty ∧ table.Fits capacity ∧ table.columns.length ≤ maxFields) := by
  have heof := negotiate_eof withDatabase serverCapabilities
  constructor
  · rw [← BinaryTable.receiveResultSet_connection_iff heof
      (hidle.sent (negotiate withDatabase serverCapabilities) table.size_lt),
      MysqlClient.stmtExecute, if_neg hsent]
    rfl
  constructor
  · rintro ⟨rs, next, hrun, hrows, hunread⟩
    obtain ⟨hfits, hcols⟩ := BinaryTable.fits_of_run hawaiting hrun hunread
    have hsync := (BinaryTable.run_iff beyond hawaiting hfits hcols).1
      ⟨rs, next, hrun, hrows, hunread⟩
    exact ⟨((BinaryTable.receiveResultSet_connection_iff heof hawaiting).1 hsync).1, hfits,
      hcols⟩
  rintro ⟨hempty, hfits, hcols⟩
  exact (BinaryTable.run_iff beyond hawaiting hfits hcols).2
    ((BinaryTable.receiveResultSet_connection_iff heof hawaiting).2 ⟨hempty, hfits⟩)

/-! ## Two tables -/

def nameColumn : MysqlField where
  name := ascii "name"
  type := VAR_STRING
  flags := 0
  columnLength := 255
  decimals := 0
  catalog := ascii "def"
  schema := []
  table := []
  orgTable := []
  orgName := []
  characterSet := 45

theorem nameColumn_valid : nameColumn.Valid := by
  constructor
  all_goals decide +kernel

def nameColumnsEof : EofPacket := {}

def nameEof : EofPacket := { statusFlags := 0x0002 }

/-- The payloads of a table of one column and one row. -/
def namePayloads (value : Option Bytes) : List Bytes :=
  Part.head (isModern agreed) [nameColumn] nameColumnsEof ++
    ([[value]].map binaryRow ++ [eofPayload (isModern agreed) nameEof])

def nameTable (value : Option Bytes) (hval : ∀ str, some str ∈ [value] → Storable str)
    (hsize : ∀ payload ∈ namePayloads value, payload.length < 2 ^ 24) :
    BinaryTable (isModern agreed) where
  columns := [nameColumn]
  columnsEof := nameColumnsEof
  rows := [[value]]
  eof := nameEof
  packets := (namePayloads value).map fun payload => ⟨1, payload⟩
  valid :=
    { columns_pos := List.cons_ne_nil _ _
      columns_lt := by decide
      column := fun column hcolumn => by
        rw [List.mem_singleton.1 hcolumn]
        exact nameColumn_valid
      row_length := fun row hrow => by
        rw [List.mem_singleton.1 hrow]
        rfl
      storable := fun row hrow str hstr => by
        rw [List.mem_singleton.1 hrow] at hstr
        exact hval str hstr }
  eof_valid := ⟨by decide, by decide, fun hold => absurd hold (by decide)⟩
  payload_eq := by
    rw [List.map_map]
    exact List.map_id _
  size_lt := fun packet hpkt => by
    obtain ⟨payload, hpay, rfl⟩ := List.mem_map.1 hpkt
    exact hsize payload hpay

def emptyName : BinaryTable (isModern agreed) :=
  nameTable (some []) (fun str hstr => by cases hstr with
    | head => decide
    | tail _ hstr => cases hstr) (by decide +kernel)

def oneLetter : BinaryTable (isModern agreed) :=
  nameTable (some (ascii "a")) (fun str hstr => by cases hstr with
    | head => decide +kernel
    | tail _ hstr => cases hstr) (by decide +kernel)

theorem connected_holds (reads : Nat → Nat) :
    (MysqlClient.connected reads false 0xFFFFFFFF).connection.Holds
      MysqlClient.kRecvBufferCapacity [] where
  capacity_eq := rfl
  capacity_pos := by decide
  buffer_le := Nat.zero_le _
  unread_eq := rfl
  size_lt := fun _ hpkt => absurd hpkt not_mem_nil

/-- An empty string comes out of a statement. -/
theorem stmtExecute_emptyName :
    ∃ rs next, MysqlClient.stmtExecute (MysqlClient.connected (fun _ => 7) false 0xFFFFFFFF) 1 [] []
      emptyName.wire = .done rs next ∧ rs.rows = [[some []]] ∧ next.unread = [] := by
  have hiff := stmtExecute_rows_iff false 0xFFFFFFFF emptyName 1 [] [] (by decide +kernel)
    (MysqlClient.connected (fun _ => 7) false 0xFFFFFFFF).connection (connected_holds _)
    MysqlClient.kRecvBufferCapacity 4096 (fun _ => 0) (connectionOf emptyName.packets)
    (connectionOf_holds emptyName.size_lt)
  have hfits : ∀ packet ∈ emptyName.packets, packet.size ≤ MysqlClient.kRecvBufferCapacity := by
    decide +kernel
  refine hiff.1.2 ⟨fun row hrow value hval => ?_, hfits⟩
  rw [List.mem_singleton.1 hrow] at hval
  exact List.mem_singleton.1 hval

/-- A string of one letter does not. -/
theorem not_stmtExecute_oneLetter :
    ¬ ∃ rs next, MysqlClient.stmtExecute (MysqlClient.connected (fun _ => 7) false 0xFFFFFFFF) 1 [] []
      oneLetter.wire = .done rs next ∧ rs.rows = [[some (ascii "a")]] ∧ next.unread = [] := by
  rintro ⟨rs, next, hreceive, hrows, hunread⟩
  rw [MysqlClient.stmtExecute, if_neg (by decide +kernel)] at hreceive
  have hempty := ((BinaryTable.receiveResultSet_connection_iff (negotiate_eof false 0xFFFFFFFF)
    ((connected_holds fun _ => 7).sent agreed oneLetter.size_lt)).1
      ⟨rs, next, hreceive, hrows, hunread⟩).1
  have hletter := hempty _ (mem_singleton_self _) _ (mem_singleton_self _)
  exact absurd hletter (by decide +kernel)

end Galay.Mysql
