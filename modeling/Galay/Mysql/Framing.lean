import Galay.Mysql.BinaryRows

/-!
# Packets and length-encoded values on the wire

What the encoders write is read back, and nothing is read from less of it.
-/

namespace Galay.Mysql

open List

/-! ## Packets -/

def wrapPacket (payload : Bytes) (sequenceId : UInt8) : Bytes :=
  if payload.length > MYSQL_MAX_PACKET_SIZE then []
  else Lib.toLe 3 payload.length ++ [sequenceId] ++ payload

/-- The payload of `encodeStmtExecute`. -/
def stmtExecutePayload (stmtId : UInt32) (params : List (Option Bytes)) (paramTypes : Bytes) :
    Bytes :=
  [COM_STMT_EXECUTE] ++ Lib.toLe 4 stmtId.toNat ++ [0x00] ++ Lib.toLe 4 1 ++
    if params = [] then []
    else nullBitmap 0 params ++ [0x01] ++ paramTypeBytes params.length paramTypes ++
      binaryValues params

theorem encodeStmtExecute_eq (stmtId : UInt32) (params : List (Option Bytes)) (paramTypes : Bytes)
    (sequenceId : UInt8) : encodeStmtExecute stmtId params paramTypes sequenceId =
      wrapPacket (stmtExecutePayload stmtId params paramTypes) sequenceId := rfl

theorem encodeSimpleCommand_eq (cmd : UInt8) (payload : Bytes) (sequenceId : UInt8) :
    encodeSimpleCommand cmd payload sequenceId = wrapPacket (cmd :: payload) sequenceId := by
  rw [encodeSimpleCommand, wrapPacket, length_cons, Nat.add_comm 1]
  refine if_congr ?_ rfl (by simp)
  rw [MYSQL_MAX_PACKET_SIZE]
  omega

/-- What a receiver that follows the protocol makes of some bytes: a packet of 0xFFFFFF bytes goes
on in the next one. -/
inductive Reassembles : Bytes → Bytes → Prop
  | last {data : Bytes} {packet : Packet} {consumed : Nat}
      (hpkt : extractPacket data = .ok (packet, consumed)) (hend : data.drop consumed = [])
      (hlen : packet.payload.length ≠ 0xFFFFFF) : Reassembles data packet.payload
  | more {data payload : Bytes} {packet : Packet} {consumed : Nat}
      (hpkt : extractPacket data = .ok (packet, consumed))
      (hlen : packet.payload.length = 0xFFFFFF)
      (hnext : Reassembles (data.drop consumed) payload) :
      Reassembles data (packet.payload ++ payload)

/-- The payload is what the receiver reads from the bytes alone, and they are one packet whatever
comes behind them. -/
def Framed (emitted payload : Bytes) (sequenceId : UInt8) : Prop :=
  Reassembles emitted payload ∧
    ∀ rest, extractPacket (emitted ++ rest) = .ok (⟨sequenceId, payload⟩, emitted.length)

/-- The receiver does not stop at a packet of the longest length. -/
theorem not_reassembles (hpkt : extractPacket data = .ok (packet, data.length))
    (hlen : packet.payload.length = 0xFFFFFF) : ¬ Reassembles data payload := by
  intro h
  cases h with
  | last hpkt' _ hlen' =>
    rw [hpkt] at hpkt'
    cases hpkt'
    exact hlen' hlen
  | more hpkt' _ hnext =>
  rw [hpkt] at hpkt'
  cases hpkt'
  rw [drop_length] at hnext
  cases hnext with
  | last hnone => cases hnone
  | more hnone => cases hnone

theorem wrapPacket_framed_iff (h : wrapPacket payload sequenceId ≠ []) :
    Framed (wrapPacket payload sequenceId) payload sequenceId ↔ payload.length < 0xFFFFFF := by
  have hfits : ¬ payload.length > MYSQL_MAX_PACKET_SIZE := fun hlong => h (if_pos hlong)
  have hwire : wrapPacket payload sequenceId = (⟨sequenceId, payload⟩ : Packet).wire := if_neg hfits
  rw [MYSQL_MAX_PACKET_SIZE] at hfits
  have hread (rest : Bytes) := @extractPacket_wire ⟨sequenceId, payload⟩ (by simp only; omega) rest
  rw [← hwire, ← Packet.length_wire, ← hwire] at hread
  have halone := hread []
  rw [append_nil] at halone
  constructor
  · rintro ⟨hreassembles, -⟩
    by_contra hlong
    exact not_reassembles halone (by simp only; omega) hreassembles
  intro hshort
  exact ⟨.last halone (drop_length ..) (Nat.ne_of_lt hshort), hread⟩

/-- The commands are framed exactly when their payload is shorter than the longest packet. -/
theorem framing_iff (sequenceId : UInt8) :
    (∀ payload, wrapPacket payload sequenceId ≠ [] →
      (Framed (wrapPacket payload sequenceId) payload sequenceId ↔ payload.length < 0xFFFFFF)) ∧
    (∀ cmd payload, encodeSimpleCommand cmd payload sequenceId ≠ [] →
      (Framed (encodeSimpleCommand cmd payload sequenceId) (cmd :: payload) sequenceId ↔
        payload.length + 1 < 0xFFFFFF)) ∧
    ∀ stmtId params paramTypes, encodeStmtExecute stmtId params paramTypes sequenceId ≠ [] →
      (Framed (encodeStmtExecute stmtId params paramTypes sequenceId)
          (stmtExecutePayload stmtId params paramTypes) sequenceId ↔
        (stmtExecutePayload stmtId params paramTypes).length < 0xFFFFFF) := by
  refine ⟨fun payload h => wrapPacket_framed_iff h, fun cmd payload h => ?_,
    fun stmtId params paramTypes h => ?_⟩
  · rw [encodeSimpleCommand_eq] at h ⊢
    exact wrapPacket_framed_iff h
  rw [encodeStmtExecute_eq] at h ⊢
  exact wrapPacket_framed_iff h

/-- The longest payload that the encoders accept. -/
theorem not_framed_longest :
    wrapPacket (List.replicate 0xFFFFFF 0) 0 ≠ [] ∧
      ¬ Framed (wrapPacket (List.replicate 0xFFFFFF 0) 0) (List.replicate 0xFFFFFF 0) 0 := by
  have hlen : (List.replicate 0xFFFFFF (0 : UInt8)).length = 0xFFFFFF := length_replicate
  generalize List.replicate 0xFFFFFF (0 : UInt8) = payload at hlen
  have hne : wrapPacket payload 0 ≠ [] := by
    rw [wrapPacket, if_neg (by rw [MYSQL_MAX_PACKET_SIZE]; omega)]
    simp
  refine ⟨hne, fun hframed => ?_⟩
  have hshort := (wrapPacket_framed_iff hne).1 hframed
  omega

/-! ## Values of which something is missing -/

theorem readLenEncInt_incomplete {cut : Bytes} (h : cut <+: writeLenEncInt val)
    (hshort : cut.length < (writeLenEncInt val).length) :
    readLenEncInt cut = .error .Incomplete := by
  cases cut with
  | nil => rfl
  | cons first cut =>
  rw [writeLenEncInt] at h hshort
  split at h
  · rw [if_pos ‹_›] at hshort
    simp at hshort
  rw [if_neg ‹_›] at hshort
  split at h
  · obtain ⟨rfl, -⟩ := List.cons_prefix_cons.1 h
    rw [if_pos ‹_›, length_cons, length_cons, Lib.length_toLe] at hshort
    rw [readLenEncInt, if_neg (by decide), if_neg (by decide), if_pos rfl]
    exact if_pos hshort
  rw [if_neg ‹_›] at hshort
  split at h
  · obtain ⟨rfl, -⟩ := List.cons_prefix_cons.1 h
    rw [if_pos ‹_›, length_cons, length_cons, Lib.length_toLe] at hshort
    rw [readLenEncInt, if_neg (by decide), if_neg (by decide), if_neg (by decide), if_pos rfl]
    exact if_pos hshort
  obtain ⟨rfl, -⟩ := List.cons_prefix_cons.1 h
  rw [if_neg ‹_›, length_cons, length_cons, Lib.length_toLe] at hshort
  rw [readLenEncInt, if_neg (by decide), if_neg (by decide), if_neg (by decide),
    if_neg (by decide), if_pos rfl]
  exact if_pos hshort

/-- What is cut off from two texts is cut off from the first one, or has all of it. -/
theorem prefix_append_cases {cut front back : Bytes} (h : cut <+: front ++ back)
    (hshort : cut.length < (front ++ back).length) :
    cut <+: front ∧ cut.length < front.length ∨
      ∃ rest, cut = front ++ rest ∧ rest <+: back ∧ rest.length < back.length := by
  by_cases hfront : cut.length < front.length
  · exact .inl ⟨prefix_of_prefix_length_le h (prefix_append ..) hfront.le, hfront⟩
  obtain ⟨rest, rfl⟩ := prefix_of_prefix_length_le (prefix_append front back) h
    (Nat.le_of_not_lt hfront)
  rw [length_append, length_append] at hshort
  exact .inr ⟨rest, rfl, (prefix_append_right_inj front).1 h, by omega⟩

theorem readLenEncString_incomplete {cut : Bytes} (hstr : Storable str)
    (h : cut <+: writeLenEncString str) (hshort : cut.length < (writeLenEncString str).length) :
    readLenEncStringView cut = .error .Incomplete := by
  have hsize : str.length < 2 ^ 63 := hstr
  rcases prefix_append_cases h hshort with ⟨hint, hlen⟩ | ⟨rest, rfl, -, hlen⟩
  · rw [readLenEncStringView, readLenEncInt_incomplete hint hlen]
  have hnine := length_writeLenEncInt str.length
  rw [readLenEncStringView, readLenEncInt_write (by omega)]
  simp only [length_append]
  rw [if_neg (by rw [sizeMax]; omega), if_pos (by omega)]

theorem textColumns_incomplete (hrow : ∀ str, some str ∈ row → Storable str)
    (h : data.drop pos <+: rowPayload row)
    (hshort : (data.drop pos).length < (rowPayload row).length) :
    textColumns data row.length pos = .error .Incomplete := by
  induction row generalizing pos with
  | nil => exact absurd hshort (Nat.not_lt_zero _)
  | cons column row ih =>
  have hcolumn (str : Bytes) (heq : column = some str) : Storable str :=
    hrow str (heq ▸ mem_cons_self)
  rw [rowPayload, flatMap_cons] at h hshort
  rcases prefix_append_cases h hshort with ⟨hcut, hlen⟩ | ⟨rest, hdata, hrest, hlen⟩
  · rw [length_cons, textColumns]
    split
    · rfl
    next hpos =>
      have hdrop : data.drop pos = data[pos] :: data.drop (pos + 1) :=
        drop_eq_getElem_cons (Nat.lt_of_not_le hpos)
      cases column with
      | none =>
        rw [columnText, length_singleton, length_drop] at hlen
        omega
      | some str =>
      obtain ⟨first, bytes, hhead, hnull, -⟩ := head_writeLenEncInt str.length
      have hfirst : data[pos] = first := by
        rw [hdrop, columnText, writeLenEncString, hhead, cons_append] at hcut
        exact (List.cons_prefix_cons.1 hcut).1
      rw [if_neg (by rw [hfirst]; exact hnull),
        readLenEncString_incomplete (hcolumn str rfl) hcut hlen]
  have hnext := Lib.drop_of_drop hdata
  rw [length_cons, textColumns_cons hcolumn hdata,
    ih (fun str hstr => hrow str (mem_cons_of_mem _ hstr)) (hnext ▸ hrest) (hnext ▸ hlen)]
  rfl

/-! ## Rows of views -/

/-- A `std::string_view` into the data. -/
structure View where
  offset : Nat
  size : Nat

def View.text (data : Bytes) (view : View) : Bytes := (data.drop view.offset).take view.size

/-- The loop of `parseTextRowView`, with the row that it has so far. -/
def textColumnsView (data : Bytes) : (columns pos : Nat) → List (Option View) →
    Except ParseError (List (Option View))
  | 0, _, row => .ok row
  | columns + 1, pos, row =>
    if h : data.length ≤ pos then .error .Incomplete
    else if data[pos] = 0xFB then textColumnsView data columns (pos + 1) (row ++ [none])
    else
      match readLenEncStringView (data.drop pos) with
      | .error error => .error error
      | .ok (view, consumed) =>
        textColumnsView data columns (pos + consumed)
          (row ++ [some ⟨pos + (consumed - view.length), view.length⟩])

def parseTextRowView (data : Bytes) (columnCount : Nat) : Except ParseError (List (Option View)) :=
  textColumnsView data columnCount 0 []

theorem readLenEncInt_le
    (h : readLenEncInt data = .ok (val, consumed)) : consumed ≤ data.length := by
  unfold readLenEncInt at h
  split at h
  · cases h
  repeat' split at h
  all_goals cases h
  all_goals first | omega | exact Nat.succ_le_succ (Nat.zero_le _)

theorem readLenEncStringView_eq_ok (h : readLenEncStringView data = .ok (view, consumed)) :
    view.length ≤ consumed ∧ consumed ≤ data.length ∧
      view = (data.drop (consumed - view.length)).take view.length := by
  unfold readLenEncStringView at h
  split at h
  · cases h
  next strSize intConsumed hint =>
    have hle := readLenEncInt_le hint
    split at h
    · cases h
    split at h
    · cases h
    next hfits =>
      cases h
      have hlen : ((data.drop intConsumed).take strSize).length = strSize := by
        rw [length_take, length_drop]
        omega
      rw [hlen, Nat.add_sub_cancel]
      exact ⟨Nat.le_add_left _ _, by omega, rfl⟩

/-- Every view lies in the data. -/
def Inside (data : Bytes) (row : List (Option View)) : Prop :=
  ∀ view, some view ∈ row → view.offset + view.size ≤ data.length

/-- Both loops go the same way, and no view leaves the data. -/
theorem textColumnsView_eq {data : Bytes} {columns pos : Nat} {row : List (Option View)}
    (hrow : Inside data row) :
    (∃ error, textColumns data columns pos = .error error ∧
        textColumnsView data columns pos row = .error error) ∨
      ∃ rest, Inside data (row ++ rest) ∧
        textColumns data columns pos = .ok (rest.map (Option.map (View.text data))) ∧
        textColumnsView data columns pos row = .ok (row ++ rest) := by
  induction columns generalizing pos row with
  | zero => exact .inr ⟨[], by rwa [append_nil], rfl, by rw [append_nil]; rfl⟩
  | succ columns ih =>
  have hgo (next : Nat) (view : Option View)
      (hview : ∀ v, view = some v → v.offset + v.size ≤ data.length) := by
    refine @ih next (row ++ [view]) fun v hv => ?_
    rcases List.mem_append.1 hv with hv | hv
    · exact hrow v hv
    exact hview v (List.mem_singleton.1 hv).symm
  rw [textColumns, textColumnsView]
  by_cases hpos : pos ≥ data.length
  · exact .inl ⟨.Incomplete, dif_pos hpos, dif_pos hpos⟩
  rw [dif_neg hpos, dif_neg hpos]
  by_cases hnull : data[pos] = 0xFB
  · rw [if_pos hnull, if_pos hnull]
    rcases hgo (pos + 1) none (by rintro _ ⟨⟩) with ⟨error, htext, hview⟩ | ⟨rest, hin, htext, hview⟩
    · exact .inl ⟨error, by rw [htext], hview⟩
    rw [append_assoc] at hin hview
    exact .inr ⟨none :: rest, hin, by rw [htext]; rfl, hview⟩
  rw [if_neg hnull, if_neg hnull]
  cases hread : readLenEncStringView (data.drop pos) with
  | error error => exact .inl ⟨error, rfl, rfl⟩
  | ok result =>
  obtain ⟨text, consumed⟩ := result
  obtain ⟨hsize, hle, htake⟩ := readLenEncStringView_eq_ok hread
  rw [length_drop] at hle
  have htext' : (⟨pos + (consumed - text.length), text.length⟩ : View).text data = text := by
    rw [View.text, ← drop_drop, ← htake]
  rcases hgo (pos + consumed) (some ⟨pos + (consumed - text.length), text.length⟩)
      (by rintro v ⟨rfl⟩; simp only; omega) with ⟨error, htext, hview⟩ | ⟨rest, hin, htext, hview⟩
  · exact .inl ⟨error, by simp only [htext], hview⟩
  rw [append_assoc] at hin hview
  refine .inr ⟨_, hin, ?_, hview⟩
  simp only [htext]
  rw [singleton_append, map_cons, Option.map_some, htext']

/-- The texts of the views. -/
def viewTexts (data : Bytes) (row : Except ParseError (List (Option View))) :
    Except ParseError MysqlRow :=
  row.map fun views => views.map (Option.map (View.text data))

theorem parseTextRowView_agree (data : Bytes) (columnCount : Nat) :
    viewTexts data (parseTextRowView data columnCount) = parseTextRow data columnCount ∧
      ∀ views, parseTextRowView data columnCount = .ok views → Inside data views := by
  rw [parseTextRow, parseTextRowView]
  rcases @textColumnsView_eq data columnCount 0 [] nofun with
    ⟨error, htext, hview⟩ | ⟨rest, hin, htext, hview⟩
  · rw [htext, hview]
    exact ⟨rfl, nofun⟩
  rw [htext, hview, nil_append]
  rw [nil_append] at hin
  exact ⟨rfl, fun views h => Except.ok.inj h ▸ hin⟩

/-! ## Length-encoded values and rows -/

/-- Values are read back with whatever comes behind them, and not from less of them; the loops over
a row agree on every input. -/
theorem lenEnc_round_trip :
    (∀ val < 2 ^ 64, (∀ rest, readLenEncInt (writeLenEncInt val ++ rest) =
        .ok (val, (writeLenEncInt val).length)) ∧
      ∀ cut, cut <+: writeLenEncInt val → cut.length < (writeLenEncInt val).length →
        readLenEncInt cut = .error .Incomplete) ∧
    (∀ str, Storable str → (∀ rest, readLenEncString (writeLenEncString str ++ rest) =
        .ok (str, (writeLenEncString str).length)) ∧
      ∀ cut, cut <+: writeLenEncString str → cut.length < (writeLenEncString str).length →
        readLenEncString cut = .error .Incomplete) ∧
    (∀ row : MysqlRow, (∀ str, some str ∈ row → Storable str) →
      parseTextRow (rowPayload row) row.length = .ok row ∧
      viewTexts (rowPayload row) (parseTextRowView (rowPayload row) row.length) = .ok row ∧
      ∀ cut, cut <+: rowPayload row → cut.length < (rowPayload row).length →
        parseTextRow cut row.length = .error .Incomplete ∧
        viewTexts cut (parseTextRowView cut row.length) = .error .Incomplete) ∧
    ∀ data columnCount,
      viewTexts data (parseTextRowView data columnCount) = parseTextRow data columnCount ∧
      ∀ views, parseTextRowView data columnCount = .ok views → Inside data views := by
  refine ⟨fun val hval => ⟨readLenEncInt_write hval, fun cut => readLenEncInt_incomplete⟩,
    fun str hstr => ⟨readLenEncString_write hstr, fun cut => readLenEncString_incomplete hstr⟩,
    fun row hrow => ?_, parseTextRowView_agree⟩
  have hread := parseTextRow_write hrow
  refine ⟨hread, (parseTextRowView_agree ..).1.trans hread, fun cut hcut hshort => ?_⟩
  have hnone : parseTextRow cut row.length = .error .Incomplete :=
    textColumns_incomplete hrow hcut hshort
  exact ⟨hnone, (parseTextRowView_agree ..).1.trans hnone⟩

end Galay.Mysql
