import Galay.Lib.Cursor
import Galay.Mysql.Packets

/-!
# What a server answers

The payloads of the responses to a query, written down from the client/server protocol, and what
`receiveResultSet` makes of the packets of one of them.
-/

namespace Galay.Mysql

open List

/-! ## Length-encoded values -/

def writeLenEncInt (val : Nat) : Bytes :=
  if val < 251 then [UInt8.ofNat val]
  else if val < 0x10000 then 0xFC :: Lib.toLe 2 val
  else if val < 0x1000000 then 0xFD :: Lib.toLe 3 val
  else 0xFE :: Lib.toLe 8 val

def writeLenEncString (str : Bytes) : Bytes := writeLenEncInt str.length ++ str

theorem length_writeLenEncInt (val : Nat) :
    0 < (writeLenEncInt val).length ∧ (writeLenEncInt val).length ≤ 9 := by
  rw [writeLenEncInt]
  split
  · rw [length_singleton]; decide
  split
  · rw [length_cons, Lib.length_toLe]; decide
  split
  · rw [length_cons, Lib.length_toLe]; decide
  rw [length_cons, Lib.length_toLe]; decide

theorem readUint_toLe (h : val < 2 ^ (8 * width)) (rest : Bytes) :
    readUint width (Lib.toLe width val ++ rest) = val := by
  rw [readUint, take_left' (Lib.length_toLe width val), Lib.ofLe_toLe h]

theorem readLenEncInt_write (h : val < 2 ^ 64) (rest : Bytes) :
    readLenEncInt (writeLenEncInt val ++ rest) = .ok (val, (writeLenEncInt val).length) := by
  rw [writeLenEncInt]
  split
  · rename_i hsmall
    have hbyte : (UInt8.ofNat val).toNat = val := Lib.toNat_byte (by omega)
    have hlt : UInt8.ofNat val < 0xFB := by
      rw [UInt8.lt_iff_toNat_lt, hbyte]
      exact hsmall
    simp only [singleton_append, readLenEncInt, if_pos hlt, hbyte, length_singleton]
  split
  · rename_i hword
    rw [cons_append, readLenEncInt, if_neg (by decide), if_neg (by decide), if_pos rfl,
      if_neg (by simp), readUint_toLe hword]
    rfl
  split
  · rename_i hword
    rw [cons_append, readLenEncInt, if_neg (by decide), if_neg (by decide),
      if_neg (by decide), if_pos rfl, if_neg (by simp), readUint_toLe hword]
    rfl
  rw [cons_append, readLenEncInt, if_neg (by decide), if_neg (by decide),
    if_neg (by decide), if_neg (by decide), if_pos rfl, if_neg (by simp), readUint_toLe h]
  rfl

theorem head_writeLenEncInt (val : Nat) : ∃ first rest, writeLenEncInt val = first :: rest ∧
    first ≠ 0xFB ∧ first ≠ 0xFF ∧ (first = 0 → val = 0) ∧ (first = 0xFE → 0x1000000 ≤ val) := by
  rw [writeLenEncInt]
  split
  · rename_i hsmall
    have hbyte : (UInt8.ofNat val).toNat = val := Lib.toNat_byte (by omega)
    refine ⟨_, _, rfl, ?_, ?_, ?_, ?_⟩ <;> intro heq <;>
      have hval := congrArg UInt8.toNat heq <;> rw [hbyte] at hval
    · subst hval; exact absurd hsmall (by decide)
    · subst hval; exact absurd hsmall (by decide)
    · exact hval
    subst hval; exact absurd hsmall (by decide)
  split
  · exact ⟨_, _, rfl, by decide, by decide, fun h => absurd h (by decide),
      fun h => absurd h (by decide)⟩
  split
  · exact ⟨_, _, rfl, by decide, by decide, fun h => absurd h (by decide),
      fun h => absurd h (by decide)⟩
  rename_i hlarge
  exact ⟨_, _, rfl, by decide, by decide, fun h => absurd h (by decide),
    fun _ => Nat.le_of_not_lt hlarge⟩

/-- A string that a machine can hold. -/
def Storable (str : Bytes) : Prop := str.length < 2 ^ 63

instance : DecidablePred Storable := fun str => inferInstanceAs (Decidable (str.length < 2 ^ 63))

theorem readLenEncString_write (h : Storable str) (rest : Bytes) :
    readLenEncStringView (writeLenEncString str ++ rest) =
      .ok (str, (writeLenEncString str).length) := by
  have hlen := length_writeLenEncInt str.length
  have hsize : str.length < 2 ^ 63 := h
  rw [writeLenEncString, append_assoc, readLenEncStringView, readLenEncInt_write (by omega)]
  simp only [length_append]
  rw [if_neg (by rw [sizeMax]; omega), if_neg (by omega), drop_left, take_left]

/-! ## Rows -/

def columnText : Option Bytes → Bytes
  | none => [0xFB]
  | some str => writeLenEncString str

/-- The payload of a row in the text protocol. -/
def rowPayload (row : MysqlRow) : Bytes := row.flatMap columnText

theorem textColumns_cons (hcolumn : ∀ str, column = some str → Storable str)
    {data : Bytes} {rest : Bytes} (hdata : data.drop pos = columnText column ++ rest) :
    textColumns data (columns + 1) pos =
      (textColumns data columns (pos + (columnText column).length)).map (column :: ·) := by
  have hlen := congrArg List.length hdata
  rw [length_drop, length_append] at hlen
  cases column with
  | none =>
    rw [columnText, length_singleton] at hlen
    have hnull : data[pos]? = some 0xFB := Lib.getElem_of_drop hdata
    rw [getElem?_eq_getElem (by omega), Option.some.injEq] at hnull
    rw [textColumns, dif_neg (by omega), if_pos hnull, columnText, length_singleton]
    cases textColumns data columns (pos + 1) <;> rfl
  | some str =>
  obtain ⟨first, bytes, hhead, hnull, -⟩ := head_writeLenEncInt str.length
  have hfirst : data[pos]? = some first := by
    rw [← Nat.add_zero pos, ← getElem?_drop, hdata, columnText, writeLenEncString, hhead]
    rfl
  have hpos := (length_writeLenEncInt str.length).1
  rw [columnText, writeLenEncString, length_append] at hlen
  rw [getElem?_eq_getElem (by omega), Option.some.injEq] at hfirst
  have hread : readLenEncStringView (data.drop pos) =
      .ok (str, (columnText (some str)).length) := by
    rw [hdata]
    exact readLenEncString_write (hcolumn str rfl) _
  rw [textColumns, dif_neg (by omega), if_neg (by rw [hfirst]; exact hnull), hread]
  simp only
  cases textColumns data columns (pos + (columnText (some str)).length) <;> rfl

theorem textColumns_write (hrow : ∀ str, some str ∈ row → Storable str)
    {data : Bytes} {rest : Bytes} (hdata : data.drop pos = rowPayload row ++ rest) :
    textColumns data row.length pos = .ok row := by
  induction row generalizing pos with
  | nil => rfl
  | cons column row ih =>
  rw [rowPayload, flatMap_cons, append_assoc] at hdata
  have hcolumn (str : Bytes) (h : column = some str) : Storable str :=
    hrow str (h ▸ mem_cons_self)
  rw [length_cons, textColumns_cons hcolumn hdata,
    ih (fun str hstr => hrow str (mem_cons_of_mem _ hstr)) (Lib.drop_of_drop hdata)]
  rfl

theorem parseTextRow_write (hrow : ∀ str, some str ∈ row → Storable str) :
    parseTextRow (rowPayload row) row.length = .ok row :=
  textColumns_write hrow (append_nil _).symm

/-! ## The other payloads

`modern` says whether the protocol of version 4.1 is spoken. -/

def okPayload (modern : Bool) (ok : OkPacket) : Bytes :=
  [0x00] ++ writeLenEncInt ok.affectedRows ++ writeLenEncInt ok.lastInsertId ++
    (if modern then Lib.toLe 2 ok.statusFlags ++ Lib.toLe 2 ok.warnings else []) ++ ok.info

structure OkPacket.Valid (modern : Bool) (ok : OkPacket) : Prop where
  affectedRows_lt : ok.affectedRows < 2 ^ 64
  lastInsertId_lt : ok.lastInsertId < 2 ^ 64
  statusFlags_lt : ok.statusFlags < 2 ^ 16
  warnings_lt : ok.warnings < 2 ^ 16
  old : modern = false → ok.statusFlags = 0 ∧ ok.warnings = 0

def errPayload (modern : Bool) (err : ErrPacket) : Bytes :=
  [0xFF] ++ Lib.toLe 2 err.errorCode ++ (if modern then [0x23] ++ err.sqlState else []) ++
    err.errorMessage

structure ErrPacket.Valid (modern : Bool) (err : ErrPacket) : Prop where
  errorCode_lt : err.errorCode < 2 ^ 16
  sqlState_length : modern = true → err.sqlState.length = 5

def eofPayload (modern : Bool) (eof : EofPacket) : Bytes :=
  [0xFE] ++ if modern then Lib.toLe 2 eof.warnings ++ Lib.toLe 2 eof.statusFlags else []

structure EofPacket.Valid (modern : Bool) (eof : EofPacket) : Prop where
  warnings_lt : eof.warnings < 2 ^ 16
  statusFlags_lt : eof.statusFlags < 2 ^ 16
  old : modern = false → eof.warnings = 0 ∧ eof.statusFlags = 0

def columnPayload (field : MysqlField) : Bytes :=
  writeLenEncString field.catalog ++ (writeLenEncString field.schema ++
    (writeLenEncString field.table ++ (writeLenEncString field.orgTable ++
      (writeLenEncString field.name ++ (writeLenEncString field.orgName ++
        ([0x0C] ++ (Lib.toLe 2 field.characterSet ++ (Lib.toLe 4 field.columnLength ++
          ([field.type] ++ (Lib.toLe 2 field.flags ++ [field.decimals, 0x00, 0x00]))))))))))

structure MysqlField.Valid (field : MysqlField) : Prop where
  catalog : Storable field.catalog
  schema : Storable field.schema
  table : Storable field.table
  orgTable : Storable field.orgTable
  name : Storable field.name
  orgName : Storable field.orgName
  characterSet_lt : field.characterSet < 2 ^ 16
  columnLength_lt : field.columnLength < 2 ^ 32
  flags_lt : field.flags < 2 ^ 16

/-- Whether the capabilities hold the 4.1 protocol. -/
def isModern (capabilities : Nat) : Bool := capabilities &&& CLIENT_PROTOCOL_41 ≠ 0

variable {capabilities : Nat}

theorem isModern_iff : isModern capabilities = true ↔ capabilities &&& CLIENT_PROTOCOL_41 ≠ 0 :=
  decide_eq_true_iff

section AtPosition

variable {data after : Bytes} {pos : Nat}

theorem readUint_at (h : data.drop pos = Lib.toLe width val ++ after)
    (hval : val < 2 ^ (8 * width)) : readUint width (data.drop pos) = val := by
  rw [h, readUint_toLe hval]

theorem readLenEncInt_at (h : data.drop pos = writeLenEncInt val ++ after) (hval : val < 2 ^ 64) :
    readLenEncInt (data.drop pos) = .ok (val, (writeLenEncInt val).length) := by
  rw [h, readLenEncInt_write hval]

theorem readLenEncString_at (h : data.drop pos = writeLenEncString str ++ after)
    (hstr : Storable str) :
    readLenEncString (data.drop pos) = .ok (str, (writeLenEncString str).length) := by
  rw [h, readLenEncString, readLenEncString_write hstr]

end AtPosition

theorem parseOk_write (H : ok.Valid (isModern capabilities)) :
    parseOk (okPayload (isModern capabilities) ok) capabilities = .ok ok := by
  obtain ⟨haffected, hlast, hstatus, hwarnings, hold⟩ := H
  generalize hdata : okPayload (isModern capabilities) ok = data
  rw [okPayload, append_assoc, append_assoc, append_assoc] at hdata
  have hstart : data.drop 0 = _ := hdata.symm
  have hrows : data.drop 1 = _ := Lib.drop_of_drop hstart
  have hinsert := Lib.drop_of_drop hrows
  have hflags := Lib.drop_of_drop hinsert
  have hlen := Lib.le_of_drop hstart Nat.one_pos
  rw [parseOk, if_neg (by rw [length_singleton] at hlen; omega)]
  simp only [readLenEncInt_at hrows haffected, readLenEncInt_at hinsert hlast, bind, Except.bind]
  by_cases hcaps : capabilities &&& CLIENT_PROTOCOL_41 ≠ 0
  · rw [if_pos (isModern_iff.2 hcaps), append_assoc] at hflags
    have hwarn := Lib.drop_of_drop hflags
    have hinfo := Lib.drop_of_drop hwarn
    have hlong := Lib.le_of_drop hwarn (by rw [Lib.length_toLe]; decide)
    rw [Lib.length_toLe] at hwarn hinfo hlong
    rw [Lib.length_toLe] at hinfo hlong
    rw [if_pos hcaps, if_neg (by omega), readUint_at hflags hstatus, readUint_at hwarn hwarnings,
      hinfo]
    rfl
  have hplain : isModern capabilities = false :=
    Bool.eq_false_iff.2 fun htrue => hcaps (isModern_iff.1 htrue)
  rw [hplain, if_neg Bool.false_ne_true] at hflags
  rw [if_neg hcaps, hflags]
  obtain ⟨hstatus, hwarnings⟩ := hold hplain
  cases ok
  cases hstatus
  cases hwarnings
  rfl

theorem parseErr_write (H : err.Valid (isModern capabilities)) :
    ∃ parsed, parseErr (errPayload (isModern capabilities) err) capabilities = .ok parsed ∧
      parsed.errorCode = err.errorCode ∧ parsed.errorMessage = err.errorMessage := by
  generalize hdata : errPayload (isModern capabilities) err = data
  rw [errPayload, append_assoc, append_assoc] at hdata
  have hstart : data.drop 0 = _ := hdata.symm
  have hcode : data.drop 1 = _ := Lib.drop_of_drop hstart
  have hst := Lib.drop_of_drop hcode
  have hlen := Lib.le_of_drop hcode (by rw [Lib.length_toLe]; decide)
  rw [Lib.length_toLe] at hst hlen
  rw [parseErr, if_neg (by omega)]
  simp only [readUint_at hcode H.errorCode_lt]
  by_cases hcaps : capabilities &&& CLIENT_PROTOCOL_41 ≠ 0
  · have hmodern := isModern_iff.2 hcaps
    have hfive := H.sqlState_length hmodern
    rw [if_pos hmodern] at hst
    have hmsg := Lib.drop_of_drop hst
    have hlong := Lib.le_of_drop hst (by rw [length_append]; exact Nat.add_pos_left Nat.one_pos _)
    rw [length_append, hfive] at hmsg hlong
    rw [if_pos hcaps, if_neg (by rw [length_singleton] at hlong; omega)]
    exact ⟨_, rfl, rfl, hmsg⟩
  have hplain : isModern capabilities = false :=
    Bool.eq_false_iff.2 fun htrue => hcaps (isModern_iff.1 htrue)
  rw [hplain, if_neg Bool.false_ne_true] at hst
  rw [if_neg hcaps]
  exact ⟨_, rfl, rfl, hst⟩

theorem parseEof_write (H : eof.Valid modern) : parseEof (eofPayload modern eof) = .ok eof := by
  obtain ⟨hwarnings, hstatus, hold⟩ := H
  generalize hdata : eofPayload modern eof = data
  cases modern with
  | true =>
    rw [eofPayload, if_pos rfl, ← append_nil (Lib.toLe 2 eof.statusFlags)] at hdata
    have hstart : data.drop 0 = _ := hdata.symm
    have hwarn : data.drop 1 = _ := Lib.drop_of_drop hstart
    have hflags := Lib.drop_of_drop hwarn
    have hlen := Lib.le_of_drop hflags (by rw [Lib.length_toLe]; decide)
    rw [Lib.length_toLe] at hflags hlen
    rw [Lib.length_toLe] at hlen
    rw [parseEof, if_neg (by omega), if_pos (by omega), readUint_at hwarn hwarnings,
      readUint_at hflags hstatus]
  | false =>
  obtain ⟨hwarnings, hstatus⟩ := hold rfl
  subst hdata
  cases eof
  cases hwarnings
  cases hstatus
  rfl

theorem parseColumnDefinition_write (H : field.Valid) :
    parseColumnDefinition (columnPayload field) = .ok field := by
  generalize hdata : columnPayload field = data
  rw [columnPayload] at hdata
  have hcatalog : data.drop 0 = _ := hdata.symm
  have hschema := Lib.drop_of_drop hcatalog
  have htable := Lib.drop_of_drop hschema
  have horgTable := Lib.drop_of_drop htable
  have hname := Lib.drop_of_drop horgTable
  have horgName := Lib.drop_of_drop hname
  have hfixed := Lib.drop_of_drop horgName
  have hcharset := Lib.drop_of_drop hfixed
  have hcolumnLength := Lib.drop_of_drop hcharset
  have htype := Lib.drop_of_drop hcolumnLength
  have hflags := Lib.drop_of_drop htype
  have hdecimals := Lib.drop_of_drop hflags
  simp only [Lib.length_toLe, length_singleton] at hcharset hcolumnLength htype hflags hdecimals
  have hend := Lib.le_of_drop (hdecimals.trans (append_nil _).symm) (Nat.succ_pos _)
  rw [parseColumnDefinition]
  simp only [readLenEncString_at hcatalog H.catalog, readLenEncString_at hschema H.schema,
    readLenEncString_at htable H.table, readLenEncString_at horgTable H.orgTable,
    readLenEncString_at hname H.name, readLenEncString_at horgName H.orgName, bind, Except.bind]
  simp only [length_cons, length_nil] at hend
  obtain ⟨pos, hpos⟩ : ∃ pos, pos = 0 + (writeLenEncString field.catalog).length +
    (writeLenEncString field.schema).length + (writeLenEncString field.table).length +
    (writeLenEncString field.orgTable).length + (writeLenEncString field.name).length +
    (writeLenEncString field.orgName).length := ⟨_, rfl⟩
  simp only [← hpos] at hcharset hcolumnLength htype hflags hdecimals hend ⊢
  have htypeAt : data[pos + 1 + 6]? = some field.type := Lib.getElem_of_drop htype
  have hdecimalsAt : data[pos + 1 + 9]? = some field.decimals := Lib.getElem_of_drop hdecimals
  have hflagsAt : data.drop (pos + 1 + 7) = _ := hflags
  rw [getElem?_eq_getElem (by omega), Option.some.injEq] at htypeAt hdecimalsAt
  rw [if_neg (by omega), dif_neg (by omega), htypeAt, hdecimalsAt,
    readUint_at hcharset H.characterSet_lt, readUint_at hcolumnLength H.columnLength_lt,
    readUint_at hflagsAt H.flags_lt]
  rfl

end Galay.Mysql
