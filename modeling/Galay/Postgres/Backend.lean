import Galay.Postgres.Awaitable

/-!
# Messages of a backend

The messages that a server sends after the start-up, written down from the protocol, and what the
parsers read from them.
-/

namespace Galay.Postgres

open List

/-! ## Integers and strings -/

def writeSignedInt (width : Nat) (value : Int) : Bytes :=
  Lib.toBe width (value % 2 ^ (8 * width)).toNat

@[simp] theorem length_writeSignedInt (width : Nat) (value : Int) :
    (writeSignedInt width value).length = width :=
  Lib.length_toBe width _

theorem two_mul_half (hwidth : 0 < width) : 2 ^ (8 * width) = 2 * 2 ^ (8 * width - 1) := by
  rw [← Nat.pow_succ']
  congr 1
  omega

theorem two_mul_half_int (hwidth : 0 < width) :
    (2 : Int) ^ (8 * width) = 2 * 2 ^ (8 * width - 1) ∧
      ((2 ^ (8 * width - 1) : Nat) : Int) = 2 ^ (8 * width - 1) := by
  refine ⟨?_, Int.natCast_pow ..⟩
  rw [← Int.pow_succ']
  congr 1
  omega

theorem readSignedInt_write (hwidth : 0 < width)
    (hlow : -2 ^ (8 * width - 1) ≤ value) (hhigh : value < 2 ^ (8 * width - 1)) (rest : Bytes) :
    readSignedInt width (writeSignedInt width value ++ rest) = value := by
  have hpowNat := two_mul_half hwidth
  obtain ⟨hpow, hcast⟩ := two_mul_half_int hwidth
  have hpos : (0 : Int) < 2 ^ (8 * width - 1) := Int.pow_pos (by decide)
  generalize (2 : Int) ^ (8 * width - 1) = half at *
  generalize hhalf : (2 : Nat) ^ (8 * width - 1) = halfNat at *
  have hmod : 0 ≤ value → value % (2 * half) = value := fun h => Int.emod_eq_of_lt h (by omega)
  have hmodNeg : value < 0 → value % (2 * half) = value + 2 * half := fun h => by
    rw [← Int.add_emod_right, Int.emod_eq_of_lt (by omega) (by omega)]
  have hfits : (value % 2 ^ (8 * width)).toNat < 2 ^ (8 * width) := by
    rw [hpow, hpowNat]
    have hnonneg := Int.emod_nonneg value (show 2 * half ≠ 0 by omega)
    have hlt := Int.emod_lt_of_pos value (show 0 < 2 * half by omega)
    omega
  rw [readSignedInt, writeSignedInt]
  simp only [readInt_toBe hfits]
  rw [hpow, hhalf]
  rcases Int.lt_or_le value 0 with hneg | hnonneg
  · rw [hmodNeg hneg, if_neg (by omega)]
    omega
  rw [hmod hnonneg, if_pos (by omega)]
  omega

/-- A string that can be sent with a zero byte behind it. -/
def Clean (str : Bytes) : Prop := 0 ∉ str

instance : DecidablePred Clean := fun str => inferInstanceAs (Decidable (0 ∉ str))

def writeCString (str : Bytes) : Bytes := str ++ [0]

theorem length_writeCString (str : Bytes) : (writeCString str).length = str.length + 1 := by
  rw [writeCString, length_append, length_singleton]

theorem readCString_write (h : Clean str) (rest : Bytes) :
    readCString (writeCString str ++ rest) = .ok (str, (writeCString str).length) := by
  have htake : (writeCString str ++ rest).takeWhile (· ≠ 0) = str := by
    rw [writeCString, append_assoc, takeWhile_append_of_pos]
    · rw [singleton_append, takeWhile_cons_of_neg (by decide), append_nil]
    intro b hb
    exact decide_eq_true fun hzero => h (hzero ▸ hb)
  rw [readCString, if_pos (by rw [writeCString]; simp), htake, length_writeCString]

/-! ## Messages -/

inductive Message
  | rowDescription (fields : List RowDescriptionField)
  | dataRow (values : PostgresRow)
  | commandComplete (tag : Bytes)
  | emptyQueryResponse
  | noticeResponse (fields : Bytes)
  | parameterStatus (name value : Bytes)
  | notificationResponse (processId : Nat) (channel payload : Bytes)
  | errorResponse (fields : List (UInt8 × Bytes))
  | readyForQuery (status : UInt8)
  | parseComplete
  | bindComplete
  | closeComplete
  | noData
  | portalSuspended
  | parameterDescription (oids : List Nat)
  | copyOutResponse (formats : Bytes)
  | copyData (data : Bytes)
  | copyDone

def fieldBytes (field : RowDescriptionField) : Bytes :=
  writeCString field.name ++ (Lib.toBe 4 field.tableOid ++ (writeSignedInt 2 field.columnIndex ++
    (Lib.toBe 4 field.typeOid ++ (writeSignedInt 2 field.typeSize ++
      (writeSignedInt 4 field.typeModifier ++ writeSignedInt 2 field.format)))))

def valueBytes : Option Bytes → Bytes
  | none => writeSignedInt 4 (-1)
  | some value => writeSignedInt 4 value.length ++ value

def errorFieldBytes (field : UInt8 × Bytes) : Bytes := field.1 :: writeCString field.2

namespace Message

def type : Message → UInt8
  | rowDescription _ => kMsgRowDescription
  | dataRow _ => kMsgDataRow
  | commandComplete _ => kMsgCommandComplete
  | emptyQueryResponse => kMsgEmptyQueryResponse
  | noticeResponse _ => kMsgNoticeResponse
  | parameterStatus _ _ => kMsgParameterStatus
  | notificationResponse _ _ _ => 0x41
  | errorResponse _ => kMsgErrorResponse
  | readyForQuery _ => kMsgReadyForQuery
  | parseComplete => kMsgParseComplete
  | bindComplete => kMsgBindComplete
  | closeComplete => kMsgCloseComplete
  | noData => kMsgNoData
  | portalSuspended => kMsgPortalSuspended
  | parameterDescription _ => 0x74
  | copyOutResponse _ => 0x48
  | copyData _ => 0x64
  | copyDone => 0x63

def payload : Message → Bytes
  | rowDescription fields => writeSignedInt 2 fields.length ++ fields.flatMap fieldBytes
  | dataRow values => writeSignedInt 2 values.length ++ values.flatMap valueBytes
  | commandComplete tag => writeCString tag
  | noticeResponse fields => fields
  | parameterStatus name value => writeCString name ++ writeCString value
  | notificationResponse processId channel payload =>
    Lib.toBe 4 processId ++ (writeCString channel ++ writeCString payload)
  | errorResponse fields => fields.flatMap errorFieldBytes ++ [0]
  | readyForQuery status => [status]
  | parameterDescription oids => writeSignedInt 2 oids.length ++ oids.flatMap (Lib.toBe 4)
  | copyOutResponse formats => formats
  | copyData data => data
  | emptyQueryResponse | parseComplete | bindComplete | closeComplete | noData | portalSuspended
  | copyDone => []

def view (message : Message) : MessageView := ⟨message.type, message.payload⟩

end Message

structure RowDescriptionField.Valid (field : RowDescriptionField) : Prop where
  name : Clean field.name
  tableOid : field.tableOid < 2 ^ 32
  columnIndex : -2 ^ 15 ≤ field.columnIndex ∧ field.columnIndex < 2 ^ 15
  typeOid : field.typeOid < 2 ^ 32
  typeSize : -2 ^ 15 ≤ field.typeSize ∧ field.typeSize < 2 ^ 15
  typeModifier : -2 ^ 31 ≤ field.typeModifier ∧ field.typeModifier < 2 ^ 31
  format : field.format = 0 ∨ field.format = 1

/-- What the protocol asks of the contents of a message. -/
def Message.Wellformed : Message → Prop
  | rowDescription fields => fields.length < 2 ^ 15 ∧ ∀ field ∈ fields, field.Valid
  | dataRow values => values.length < 2 ^ 15 ∧ ∀ value, some value ∈ values → value.length < 2 ^ 31
  | commandComplete tag => tag ≠ [] ∧ Clean tag
  | parameterStatus name value => name ≠ [] ∧ Clean name ∧ Clean value
  | errorResponse fields => (fields.map (·.1)).Nodup ∧
    ∀ field ∈ fields, field.1 ≠ 0 ∧ Clean field.2
  | readyForQuery status => status = 0x49 ∨ status = 0x54 ∨ status = 0x45
  | _ => True

structure Message.Valid (message : Message) : Prop where
  wellformed : message.Wellformed
  length : message.view.Valid

/-! ## What is read -/

section At

variable {data after : Bytes}

theorem readInt_at (h : data.drop pos = Lib.toBe width value ++ after)
    (hval : value < 2 ^ (8 * width)) : readInt width (data.drop pos) = value := by
  rw [h, readInt_toBe hval]

theorem readSignedInt_at
    (h : data.drop pos = writeSignedInt width value ++ after) (hwidth : 0 < width)
    (hval : -2 ^ (8 * width - 1) ≤ value ∧ value < 2 ^ (8 * width - 1)) :
    readSignedInt width (data.drop pos) = value := by
  rw [h, readSignedInt_write hwidth hval.1 hval.2]

end At

theorem length_fieldBytes (field : RowDescriptionField) :
    (fieldBytes field).length = field.name.length + 19 := by
  simp only [fieldBytes, length_append, length_writeCString, length_writeSignedInt, Lib.length_toBe]

theorem rowFields_write {fields : List RowDescriptionField} (hvalid : ∀ field ∈ fields, field.Valid)
    (rest : Bytes) :
    rowFields fields.length (fields.flatMap fieldBytes ++ rest) = .ok (fields, rest) := by
  induction fields with
  | nil => rfl
  | cons field fields ih =>
  obtain ⟨hname, htableOid, hcolumnIndex, htypeOid, htypeSize, htypeModifier, hformat⟩ :=
    hvalid field (mem_cons_self ..)
  have hrest := ih fun other hother => hvalid other (mem_cons_of_mem _ hother)
  generalize hdata : fields.flatMap fieldBytes ++ rest = more at hrest
  have hsplit : (field :: fields).flatMap fieldBytes ++ rest = writeCString field.name ++
      (Lib.toBe 4 field.tableOid ++ (writeSignedInt 2 field.columnIndex ++
        (Lib.toBe 4 field.typeOid ++ (writeSignedInt 2 field.typeSize ++
          (writeSignedInt 4 field.typeModifier ++ (writeSignedInt 2 field.format ++ more)))))) := by
    rw [flatMap_cons, fieldBytes, append_assoc, hdata]
    simp only [append_assoc]
  rw [hsplit, length_cons, rowFields, readCString_write hname]
  simp only [bind, Except.bind, drop_left]
  generalize htail : Lib.toBe 4 field.tableOid ++ (writeSignedInt 2 field.columnIndex ++
        (Lib.toBe 4 field.typeOid ++ (writeSignedInt 2 field.typeSize ++
          (writeSignedInt 4 field.typeModifier ++ (writeSignedInt 2 field.format ++ more))))) = tail
  have hlen := congrArg List.length htail
  simp only [length_append, length_writeSignedInt, Lib.length_toBe] at hlen
  have htable : tail.drop 0 = _ := htail.symm
  have hindex := Lib.drop_of_drop htable
  have htype := Lib.drop_of_drop hindex
  have hsize := Lib.drop_of_drop htype
  have hmodifier := Lib.drop_of_drop hsize
  have hform := Lib.drop_of_drop hmodifier
  have hmore := Lib.drop_of_drop hform
  simp only [length_writeSignedInt, Lib.length_toBe, Nat.zero_add, Nat.reduceAdd]
    at hindex htype hsize hmodifier hform hmore
  have hread : readInt 4 tail = field.tableOid := readInt_at htable htableOid
  have hformat' : -2 ^ (8 * 2 - 1) ≤ field.format ∧ field.format < 2 ^ (8 * 2 - 1) := by
    rcases hformat with h | h <;> rw [h] <;> decide
  rw [if_neg (by omega), readSignedInt_at hform (by decide) hformat',
    if_neg (by rcases hformat with h | h <;> rw [h] <;> decide), hmore, hrest, hread,
    readSignedInt_at hindex (by decide) hcolumnIndex, readInt_at htype htypeOid,
    readSignedInt_at hsize (by decide) htypeSize,
    readSignedInt_at hmodifier (by decide) htypeModifier]
  rfl

theorem le_length_flatMap {α : Type} {values : List α} {bytes : α → Bytes}
    (h : ∀ value ∈ values, size ≤ (bytes value).length) :
    values.length * size ≤ (values.flatMap bytes).length := by
  induction values with
  | nil => exact Nat.le_of_eq (Nat.zero_mul _)
  | cons value values ih =>
  rw [forall_mem_cons] at h
  rw [length_cons, flatMap_cons, length_append, Nat.succ_mul, Nat.add_comm]
  exact Nat.add_le_add h.1 (ih h.2)

/-- What `parseRowDescription` and `parseDataRow` do around their loops. -/
def counted {α : Type} (size : Nat)
    (loop : (count : Nat) → (data : Bytes) → Except ParseError (List α × Bytes)) (data : Bytes) :
    Except ParseError (List α) :=
  if data.length < 2 then
    .error .Incomplete
  else
    let count := readSignedInt 2 data
    if count < 0 then
      .error .InvalidLength
    else if count.toNat > (data.length - 2) / size then
      .error .Incomplete
    else do
      let (values, data) ← loop count.toNat (data.drop 2)
      if data ≠ [] then .error .InvalidLength else return values

theorem readSignedInt_count {n : Nat} (h : n < 2 ^ 15) (rest : Bytes) :
    readSignedInt 2 (writeSignedInt 2 n ++ rest) = n :=
  readSignedInt_write (by decide) (Int.le_trans (by decide) (Int.natCast_nonneg _)) (by omega) _

theorem counted_write {α : Type} {loop : Nat → Bytes → Except ParseError (List α × Bytes)}
    {values : List α} {bytes : α → Bytes} (hpos : 0 < size) (hlen : values.length < 2 ^ 15)
    (hsize : ∀ value ∈ values, size ≤ (bytes value).length)
    (hloop : ∀ rest, loop values.length (values.flatMap bytes ++ rest) = .ok (values, rest)) :
    counted size loop (writeSignedInt 2 values.length ++ values.flatMap bytes) = .ok values := by
  have hread := hloop []
  rw [append_nil] at hread
  rw [counted, if_neg (by rw [length_append, length_writeSignedInt]; omega)]
  simp only [readSignedInt_count hlen, Int.toNat_natCast]
  rw [if_neg (by omega), if_neg, drop_left' (length_writeSignedInt _ _), hread]
  · rfl
  rw [length_append, length_writeSignedInt, Nat.add_sub_cancel_left, Nat.not_lt,
    Nat.le_div_iff_mul_le hpos]
  exact le_length_flatMap hsize

theorem parseRowDescription_write
    (hlen : fields.length < 2 ^ 15) (hvalid : ∀ field ∈ fields, field.Valid) :
    parseRowDescription (Message.rowDescription fields).payload = .ok fields := by
  refine counted_write (by decide : 0 < 19) hlen (fun field _ => ?_) (rowFields_write hvalid)
  rw [length_fieldBytes]
  exact Nat.le_add_left _ _

theorem rowValues_write {values : PostgresRow}
    (hvalid : ∀ value, some value ∈ values → value.length < 2 ^ 31) (rest : Bytes) :
    rowValues values.length (values.flatMap valueBytes ++ rest) = .ok (values, rest) := by
  induction values with
  | nil => rfl
  | cons value values ih =>
  have hrest := ih fun other hother => hvalid other (mem_cons_of_mem _ hother)
  rw [length_cons, flatMap_cons, append_assoc, rowValues]
  cases value with
  | none =>
    have hread : readSignedInt 4 (valueBytes none ++ (values.flatMap valueBytes ++ rest)) = -1 :=
      readSignedInt_write (by decide) (by decide) (by decide) _
    have hlen : (valueBytes none).length = 4 := length_writeSignedInt _ _
    rw [if_neg (by rw [length_append]; omega)]
    simp only [hread, if_true, drop_left' hlen, hrest, bind, Except.bind]
    rfl
  | some value =>
  have hval := hvalid value (mem_cons_self ..)
  have hread : readSignedInt 4 (valueBytes (some value) ++
      (values.flatMap valueBytes ++ rest)) = value.length := by
    rw [valueBytes, append_assoc]
    exact readSignedInt_write (by decide) (Int.le_trans (by decide) (Int.natCast_nonneg _))
      (by omega) _
  have hdrop : (valueBytes (some value) ++ (values.flatMap valueBytes ++ rest)).drop 4 =
      value ++ (values.flatMap valueBytes ++ rest) := by
    rw [valueBytes, append_assoc, drop_left' (length_writeSignedInt _ _)]
  have hlen : 4 ≤ (valueBytes (some value)).length := by
    rw [valueBytes, length_append, length_writeSignedInt]
    omega
  rw [if_neg (by rw [length_append]; omega)]
  simp only [hread, hdrop, Int.toNat_natCast, drop_left, take_left]
  rw [if_neg (by omega), if_neg (by omega), if_neg (by rw [length_append]; omega)]
  simp only [hrest, bind, Except.bind]
  rfl

theorem parseDataRow_write (hlen : values.length < 2 ^ 15)
    (hvalid : ∀ value, some value ∈ values → value.length < 2 ^ 31) :
    parseDataRow (Message.dataRow values).payload = .ok values := by
  refine counted_write (by decide : 0 < 4) hlen (fun value _ => ?_) (rowValues_write hvalid)
  cases value with
  | none => exact Nat.le_of_eq (length_writeSignedInt _ _).symm
  | some value =>
  rw [valueBytes, length_append, length_writeSignedInt]
  omega

theorem parseCommandComplete_write {tag : Bytes} (hne : tag ≠ []) (hclean : Clean tag) :
    parseCommandComplete (Message.commandComplete tag).payload =
      .ok { tag, affectedRows := affectedRows tag } := by
  have hread := readCString_write hclean []
  rw [append_nil] at hread
  rw [parseCommandComplete, Message.payload, hread]
  simp only [bind, Except.bind]
  rw [if_neg (by simp [hne])]
  rfl

theorem parseParameterStatus_write {name : Bytes} (hne : name ≠ []) (hname : Clean name)
    (hval : Clean value) :
    parseParameterStatus (Message.parameterStatus name value).payload = .ok (name, value) := by
  have hread := readCString_write hval []
  rw [append_nil] at hread
  rw [parseParameterStatus, Message.payload, readCString_write hname]
  simp only [bind, Except.bind, drop_left, hread]
  rw [if_neg (by simp [hne])]
  rfl

/-- The fields that the parser makes of an error. -/
def ErrorFields.ofList (fields : ErrorFields) (seen : List UInt8) :
    List (UInt8 × Bytes) → ErrorFields
  | [] => fields
  | (tag, value) :: rest => ofList (fields.set (0x56 ∈ seen) tag value) (tag :: seen) rest

theorem errorFields_write (hnodup : (list.map (·.1)).Nodup) (hseen : ∀ field ∈ list, field.1 ∉ seen)
    (hvalid : ∀ field ∈ list, field.1 ≠ 0 ∧ Clean field.2) :
    errorFields fields seen (list.flatMap errorFieldBytes ++ [0]) =
      .ok (fields.ofList seen list) := by
  induction list generalizing fields seen with
  | nil =>
    rw [flatMap_nil, nil_append, errorFields, if_pos rfl, if_neg (by simp)]
    rfl
  | cons field list ih =>
  obtain ⟨tag, value⟩ := field
  rw [map_cons, nodup_cons] at hnodup
  rw [forall_mem_cons] at hseen hvalid
  have hread := readCString_write hvalid.1.2 (list.flatMap errorFieldBytes ++ [0])
  have hfresh : ∀ field ∈ list, field.1 ∉ tag :: seen := by
    intro other hother hmem
    rcases List.mem_cons.1 hmem with heq | hmem
    · exact hnodup.1 (List.mem_map.2 ⟨other, hother, heq⟩)
    exact hseen.2 other hother hmem
  rw [flatMap_cons, errorFieldBytes, cons_append, cons_append, append_assoc,
    errorFields, if_neg hvalid.1.1, if_neg hseen.1]
  split
  · rename_i herr
    rw [hread] at herr
    cases herr
  rename_i hok
  rw [hread] at hok
  cases hok
  rw [drop_left]
  exact ih hnodup.2 hfresh hvalid.2

theorem parseErrorResponse_write (hnodup : (list.map (·.1)).Nodup)
    (hvalid : ∀ field ∈ list, field.1 ≠ 0 ∧ Clean field.2) :
    parseErrorResponse (Message.errorResponse list).payload = .ok (ErrorFields.ofList {} [] list) :=
  errorFields_write hnodup (fun _ _ => not_mem_nil) hvalid

theorem parseReadyForQuery_write (h : status = 0x49 ∨ status = 0x54 ∨ status = 0x45) :
    parseReadyForQuery (Message.readyForQuery status).payload = .ok status := by
  rcases h with rfl | rfl | rfl <;> rfl

end Galay.Postgres
