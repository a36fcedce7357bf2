import Galay.Http2.Hpack.Codec
import Galay.Http2.Hpack.TableLemmas

/-!
# Encoder and decoder over whole runs

A `HpackSession` is an encoder and the decoder at the other end of the connection; a block is
given to the decoder as soon as it is encoded. Between blocks the encoder may change the size of
its table any number of times, but only the last size is announced. `HpackSession.Inv` says what
the decoder's table is in the meantime: the encoder's one before the evictions that the decoder
has not been told about.
-/

namespace Galay.Http2

/-- What the owner of an encoder does with it. -/
inductive HpackOp
  | setMaxTableSize (size : Nat)
  | encode (headers : List Http2HeaderField)
  deriving DecidableEq, Repr

/-- Sizes are within the limit both sides started with, strings are shorter than `2 ^ 32`. -/
def HpackOp.Valid (maxTableSize : Nat) : HpackOp → Prop
  | .setMaxTableSize size => size ≤ maxTableSize
  | .encode headers => ∀ field ∈ headers,
      field.name.length < 2 ^ 32 ∧ field.value.length < 2 ^ 32

structure HpackSession where
  enc : HpackEncoder
  dec : HpackDecoder
  deriving DecidableEq, Repr

namespace HpackEncoder

/-- The index into the dynamic table that `encodeField` refers to, if any. -/
def referencedIndex (enc : HpackEncoder) (field : Http2HeaderField) : Option Nat :=
  let (staticIdx, staticNameOnly) := HpackStaticTable.find field.name field.value
  if staticIdx > 0 ∧ !staticNameOnly then none
  else
    match enc.dynamicTable.find field.name field.value with
    | some (dynIdx, false) => some (HpackStaticTable.size + dynIdx + 1)
    | some (dynIdx, true) =>
      if sensitive field.name ∨ staticIdx > 0 then none
      else some (HpackStaticTable.size + dynIdx + 1)
    | none => none

/-- Every index that the encoding of the list refers to is a `uint32_t`. -/
def IndicesFit (enc : HpackEncoder) : List Http2HeaderField → Prop
  | [] => True
  | field :: headers =>
    (∀ index ∈ enc.referencedIndex field, index < 2 ^ 32) ∧
      (enc.encodeField field).2.IndicesFit headers

instance IndicesFit.decidable (enc : HpackEncoder) :
    (headers : List Http2HeaderField) → Decidable (enc.IndicesFit headers)
  | [] => inferInstanceAs (Decidable True)
  | field :: headers =>
    have := IndicesFit.decidable (enc.encodeField field).2 headers
    inferInstanceAs (Decidable ((∀ index ∈ enc.referencedIndex field, index < 2 ^ 32) ∧
      (enc.encodeField field).2.IndicesFit headers))

end HpackEncoder

namespace HpackSession

/-- Both sides start with the same table size; the header list is not limited. -/
def init (maxTableSize : Nat) : HpackSession :=
  ⟨.ofMaxTableSize maxTableSize, .ofMaxTableSize maxTableSize⟩

def step (s : HpackSession) : HpackOp → HpackSession
  | .setMaxTableSize size => { s with enc := s.enc.setMaxTableSize size }
  | .encode headers =>
    ⟨(s.enc.encode headers).2, (s.dec.decode (s.enc.encode headers).1).2⟩

/-- `P` holds of the session before each block of the run and of the header list of the block. -/
def AllBlocks (P : HpackSession → List Http2HeaderField → Prop) (s : HpackSession) :
    List HpackOp → Prop
  | [] => True
  | .setMaxTableSize size :: ops => AllBlocks P (s.step (.setMaxTableSize size)) ops
  | .encode headers :: ops => P s headers ∧ AllBlocks P (s.step (.encode headers)) ops

/-- The block for `headers` is decoded to `headers`, and the tables agree after it. -/
structure BlockSynced (s : HpackSession) (headers : List Http2HeaderField) : Prop where
  decoded : (s.dec.decode (s.enc.encode headers).1).1 = .ok headers
  entries_eq : (s.step (.encode headers)).enc.dynamicTable.entries =
    (s.step (.encode headers)).dec.dynamicTable.entries
  maxSize_eq : (s.step (.encode headers)).enc.dynamicTable.maxSize =
    (s.step (.encode headers)).dec.dynamicTable.maxSize

/-- Nothing the decoder has to know is lost in a block encoded now: a size that is due is a
`uint32_t`, going to it directly evicts as much as all the sizes since the last block did, and
the indices of the block are `uint32_t`. -/
structure Announced (s : HpackSession) (headers : List Http2HeaderField) : Prop where
  size_lt : s.enc.tableSizeUpdatePending = true → s.enc.pendingTableSize < 2 ^ 32
  count_eq : s.enc.tableSizeUpdatePending = true →
    s.enc.dynamicTable.count = (s.dec.dynamicTable.setMaxSize s.enc.pendingTableSize).count
  indices : s.enc.encodeSizeUpdate.2.IndicesFit headers

/-! ## One block -/

/-- The decoder holds the table of the encoder. -/
structure Paired (enc : HpackEncoder) (dec : HpackDecoder) : Prop where
  wf : enc.dynamicTable.WF
  table_eq : dec.dynamicTable = enc.dynamicTable
  huffman : enc.useHuffman = false
  limit : dec.maxHeaderListSize = none

section Block
open HpackEncoder HpackDecoder

variable {enc : HpackEncoder} {dec : HpackDecoder} {field : Http2HeaderField}

theorem getField_static (hpos : 0 < i) (h : i ≤ HpackStaticTable.size) :
    dec.getField i = HpackStaticTable.get i := by
  rw [getField, if_neg (by omega), if_pos h]

theorem getField_dynamic (i : Nat) :
    dec.getField (HpackStaticTable.size + i + 1) = dec.dynamicTable.get i := by
  rw [getField, if_neg (by omega), if_neg (by omega)]
  congr 1
  omega

/-- The five ways in which a field is encoded; an index is one the decoder resolves. -/
theorem Paired.encodeField_cases (H : Paired enc dec)
    (hfit : ∀ index ∈ enc.referencedIndex field, index < 2 ^ 32) :
    (∃ i, i < 2 ^ 32 ∧ dec.getField i = some field ∧
      enc.encodeField field = (encodeIndexed i, enc)) ∨
    (∃ i e, 0 < i ∧ i < 2 ^ 32 ∧ dec.getField i = some e ∧ e.name = field.name ∧
      enc.encodeField field = (enc.encodeLiteralNeverIndexed i field.value, enc)) ∨
    enc.encodeField field = (enc.encodeLiteralNeverIndexedName field.name field.value, enc) ∨
    (∃ i e, 0 < i ∧ i < 2 ^ 32 ∧ dec.getField i = some e ∧ e.name = field.name ∧
      enc.encodeField field = (enc.encodeLiteralIndexed i field.value, enc.addToTable field)) ∨
    enc.encodeField field =
      (enc.encodeLiteralIndexedName field.name field.value, enc.addToTable field) := by
  have hsize : HpackStaticTable.size < 2 ^ 32 := by decide
  obtain ⟨staticIdx, staticNameOnly, hstatic⟩ :
      ∃ i b, HpackStaticTable.find field.name field.value = (i, b) := ⟨_, _, rfl⟩
  have hspec := HpackStaticTable.find_spec hstatic
  simp only [referencedIndex, hstatic] at hfit
  simp only [encodeField, hstatic]
  by_cases hfull : staticIdx > 0 ∧ (!staticNameOnly) = true
  · obtain ⟨hle, e, hget, hname, hval⟩ := hspec hfull.1
    have he : e = field := by
      cases e; cases field
      simp_all
    rw [if_pos hfull]
    exact .inl ⟨staticIdx, by omega, by rw [getField_static hfull.1 hle, hget, he], rfl⟩
  rw [if_neg hfull] at hfit ⊢
  -- a literal whose name is in the static table
  have hnamed : staticIdx > 0 → 0 < staticIdx ∧ staticIdx < 2 ^ 32 ∧
      ∃ e, dec.getField staticIdx = some e ∧ e.name = field.name := by
    intro hpos
    obtain ⟨hle, e, hget, hname, -⟩ := hspec hpos
    exact ⟨hpos, by omega, e, by rw [getField_static hpos hle, hget], hname⟩
  rcases hdyn : enc.dynamicTable.find field.name field.value with _ | ⟨dynIdx, _ | _⟩
  rotate_left
  · obtain ⟨e, hget, hname, hval⟩ := H.wf.find_spec hdyn
    rw [hdyn] at hfit
    have he : e = field := by
      cases e; cases field
      simp_all
    refine .inl ⟨_, hfit _ rfl, ?_, rfl⟩
    rw [getField_dynamic, H.table_eq, hget, he]
  all_goals
    simp only
    by_cases hsens : sensitive field.name = true
    · rw [if_pos hsens]
      by_cases hpos : staticIdx > 0
      · obtain ⟨h0, hlt, e, hget, hname⟩ := hnamed hpos
        rw [if_pos hpos]
        exact .inr (.inl ⟨_, e, h0, hlt, hget, hname, rfl⟩)
      rw [if_neg hpos]
      exact .inr (.inr (.inl rfl))
    rw [if_neg hsens]
    by_cases hpos : staticIdx > 0
    · obtain ⟨h0, hlt, e, hget, hname⟩ := hnamed hpos
      rw [if_pos hpos]
      exact .inr (.inr (.inr (.inl ⟨_, e, h0, hlt, hget, hname, rfl⟩)))
    rw [if_neg hpos]
  · obtain ⟨e, hget, hname, -⟩ := H.wf.find_spec hdyn
    rw [hdyn] at hfit
    simp only at hfit
    rw [if_neg (by simp only [hsens, hpos]; simp)] at hfit
    refine .inr (.inr (.inr (.inl ⟨_, e, Nat.succ_pos _, hfit _ rfl, ?_, hname, rfl⟩)))
    rw [getField_dynamic, H.table_eq, hget]
  exact .inr (.inr (.inr (.inr rfl)))

/-- The decoding loop reads an encoded field and makes the table change the encoder made. -/
theorem Paired.decodeFrom_encodeField (H : Paired enc dec)
    (hfit : ∀ index ∈ enc.referencedIndex field, index < 2 ^ 32)
    (hname : field.name.length < 2 ^ 32) (hval : field.value.length < 2 ^ 32)
    (rest : Bytes) (headers : List Http2HeaderField) (size : Nat) :
    dec.decodeFrom ((enc.encodeField field).1 ++ rest) headers size =
      ({ dec with dynamicTable := (enc.encodeField field).2.dynamicTable } :
        HpackDecoder).decodeFrom rest (headers ++ [field]) (size + field.size) := by
  have hkeep : ({ dec with dynamicTable := enc.dynamicTable } : HpackDecoder) = dec := by
    rw [← H.table_eq]
  have hadd : ({ dec with dynamicTable := (enc.addToTable field).dynamicTable } : HpackDecoder) =
      dec.addToTable field := by
    rw [HpackEncoder.addToTable, HpackDecoder.addToTable, H.table_eq]
  rcases H.encodeField_cases hfit with ⟨i, hi, hget, heq⟩ | ⟨i, e, hpos, hi, hget, hn, heq⟩ | heq |
    ⟨i, e, hpos, hi, hget, hn, heq⟩ | heq
  · rw [heq, hkeep]
    exact decodeFrom_indexed H.limit hi hget
  · rw [heq, hkeep]
    exact decodeFrom_encodeLiteral H.limit H.huffman ⟨1, rfl⟩ (by decide) hi hpos hval hget hn rest
  · rw [heq, hkeep]
    exact decodeFrom_encodeLiteralName H.limit H.huffman ⟨1, rfl⟩ (by decide) hname hval rest
  · rw [heq, hadd]
    exact decodeFrom_encodeLiteralIndexed H.limit H.huffman hi hpos hval hget hn rest
  rw [heq, hadd]
  exact decodeFrom_encodeLiteralIndexedName H.limit H.huffman hname hval rest

theorem encodeField_table (enc : HpackEncoder) (field : Http2HeaderField) :
    (enc.encodeField field).2 = enc ∨ (enc.encodeField field).2 = enc.addToTable field := by
  simp only [encodeField]
  repeat' split
  all_goals first | exact .inl rfl | exact .inr rfl

theorem Paired.encodeField (H : Paired enc dec) (field : Http2HeaderField) :
    Paired (enc.encodeField field).2
      { dec with dynamicTable := (enc.encodeField field).2.dynamicTable } := by
  rcases encodeField_table enc field with heq | heq
  · rw [heq]
    exact { H with table_eq := rfl }
  rw [heq]
  exact ⟨H.wf.add field, rfl, H.huffman, H.limit⟩

theorem encodeFields_pending (enc : HpackEncoder) (fields : List Http2HeaderField) :
    (enc.encodeFields fields).2.tableSizeUpdatePending = enc.tableSizeUpdatePending := by
  induction fields generalizing enc with
  | nil => rfl
  | cons field fields ih =>
  have hfield : (enc.encodeField field).2.tableSizeUpdatePending =
      enc.tableSizeUpdatePending := by
    rcases encodeField_table enc field with heq | heq
    · rw [heq]
    rw [heq]
    rfl
  exact (ih _).trans hfield

theorem encodeSizeUpdate_pending (enc : HpackEncoder) :
    enc.encodeSizeUpdate.2.tableSizeUpdatePending = false := by
  unfold encodeSizeUpdate
  split
  · rfl
  next h => exact Bool.eq_false_iff.2 h

theorem Paired.decodeFrom_encodeFields (H : Paired enc dec) (hfit : enc.IndicesFit fields)
    (hlen : ∀ field ∈ fields, field.name.length < 2 ^ 32 ∧ field.value.length < 2 ^ 32)
    (headers : List Http2HeaderField) (size : Nat) :
    dec.decodeFrom (enc.encodeFields fields).1 headers size = (.ok (headers ++ fields),
        { dec with dynamicTable := (enc.encodeFields fields).2.dynamicTable }) ∧
    Paired (enc.encodeFields fields).2
      { dec with dynamicTable := (enc.encodeFields fields).2.dynamicTable } := by
  induction fields generalizing enc dec headers size with
  | nil =>
    have hkeep : ({ dec with dynamicTable := enc.dynamicTable } : HpackDecoder) = dec := by
      rw [← H.table_eq]
    simp only [encodeFields, decodeFrom_nil, List.append_nil, hkeep]
    exact ⟨trivial, H⟩
  | cons field fields ih =>
  obtain ⟨hfield, hfields⟩ := hfit
  obtain ⟨hname, hval⟩ := hlen field List.mem_cons_self
  have hhead := H.decodeFrom_encodeField hfield hname hval
    ((enc.encodeField field).2.encodeFields fields).1 headers size
  obtain ⟨htail, hpaired⟩ := ih (H.encodeField field) hfields
    (fun f hf => hlen f (List.mem_cons_of_mem _ hf)) (headers ++ [field]) (size + field.size)
  refine ⟨?_, hpaired⟩
  calc dec.decodeFrom (enc.encodeFields (field :: fields)).1 headers size
      = _ := hhead
    _ = _ := htail
    _ = _ := by rw [List.append_assoc]; rfl

end Block

/-! ## The run -/

/-- The decoder's table is the encoder's one before the evictions of the sizes that are not
announced yet. -/
structure Inv (maxTableSize : Nat) (s : HpackSession) : Prop where
  wf : s.enc.dynamicTable.WF
  huffman : s.enc.useHuffman = false
  limit : s.dec.maxHeaderListSize = none
  max_eq : s.dec.maxTableSize = maxTableSize
  pending_le : s.enc.tableSizeUpdatePending = true → s.enc.pendingTableSize ≤ maxTableSize
  table_eq : s.enc.tableSizeUpdatePending = false → s.dec.dynamicTable = s.enc.dynamicTable
  table_evicted : s.enc.tableSizeUpdatePending = true →
    ∃ k ≤ s.dec.dynamicTable.count, s.enc.dynamicTable =
      { HpackDynamicTable.evict^[k] s.dec.dynamicTable with maxSize := s.enc.pendingTableSize }

theorem Inv.init (maxTableSize : Nat) : Inv maxTableSize (init maxTableSize) where
  wf := HpackDynamicTable.WF.init maxTableSize
  huffman := rfl
  limit := rfl
  max_eq := rfl
  pending_le h := nomatch h
  table_eq _ := rfl
  table_evicted h := nomatch h

variable {maxTableSize : Nat} {s : HpackSession}

section

variable (H : Inv maxTableSize s)
include H

theorem Inv.setMaxTableSize (hsize : size ≤ maxTableSize) :
    Inv maxTableSize (s.step (.setMaxTableSize size)) where
  __ := H
  wf := H.wf.setMaxSize size
  pending_le _ := hsize
  table_eq h := nomatch h
  table_evicted _ := by
    obtain ⟨k, hk, heq⟩ := HpackDynamicTable.setMaxSize_eq_iterate s.enc.dynamicTable size
    cases hpend : s.enc.tableSizeUpdatePending with
    | false =>
      have htable := H.table_eq hpend
      refine ⟨k, ?_, ?_⟩
      · rw [← htable] at hk
        exact hk
      show s.enc.dynamicTable.setMaxSize size = _
      rw [heq, ← htable]
      rfl
    | true =>
    obtain ⟨j, hj, htable⟩ := H.table_evicted hpend
    refine ⟨k + j, ?_, ?_⟩
    · rw [htable] at hk
      have hcount := HpackDynamicTable.iterate_evict_count (t := s.dec.dynamicTable) j
      simp only at hk
      show k + j ≤ s.dec.dynamicTable.count
      omega
    show s.enc.dynamicTable.setMaxSize size = _
    rw [heq, htable, HpackDynamicTable.iterate_evict_withMaxSize, Function.iterate_add_apply]
    rfl

theorem Inv.decodeFrom_encodeSizeUpdate (hann : s.Announced headers) :
    ∃ dec', Paired s.enc.encodeSizeUpdate.2 dec' ∧ dec'.maxTableSize = maxTableSize ∧
      ∀ rest acc size, s.dec.decodeFrom (s.enc.encodeSizeUpdate.1 ++ rest) acc size =
        dec'.decodeFrom rest acc size := by
  cases hpend : s.enc.tableSizeUpdatePending with
  | false =>
    have hsame : s.enc.encodeSizeUpdate = ([], s.enc) := by
      simp [HpackEncoder.encodeSizeUpdate, hpend]
    rw [hsame]
    exact ⟨s.dec, { H with table_eq := H.table_eq hpend }, H.max_eq, fun _ _ _ => rfl⟩
  | true =>
  have hupdate : s.enc.encodeSizeUpdate = (HpackEncoder.encodeInteger s.enc.pendingTableSize 5 0x20,
      { s.enc with tableSizeUpdatePending := false }) := by
    simp [HpackEncoder.encodeSizeUpdate, hpend]
  -- both tables come from the decoder's one by evictions; equal counts mean equally many
  have htable : s.dec.dynamicTable.setMaxSize s.enc.pendingTableSize = s.enc.dynamicTable := by
    obtain ⟨k, hk, henc⟩ := H.table_evicted hpend
    obtain ⟨j, hj, hdec⟩ :=
      HpackDynamicTable.setMaxSize_eq_iterate s.dec.dynamicTable s.enc.pendingTableSize
    have hcount := hann.count_eq hpend
    rw [henc, hdec] at hcount
    simp only [HpackDynamicTable.iterate_evict_count] at hcount
    have hjk : j = k := by omega
    rw [hdec, henc, hjk]
  rw [hupdate]
  refine ⟨s.dec.setTableSize s.enc.pendingTableSize, { H with table_eq := htable },
    H.max_eq, fun rest acc size => ?_⟩
  refine HpackDecoder.decodeFrom_sizeUpdate (hann.size_lt hpend) ?_
  rw [H.max_eq]
  exact H.pending_le hpend

theorem Inv.encode (hann : s.Announced headers)
    (hvalid : (HpackOp.encode headers).Valid maxTableSize) :
    s.BlockSynced headers ∧ Inv maxTableSize (s.step (.encode headers)) := by
  obtain ⟨dec', hpaired, hmax, hupdate⟩ := H.decodeFrom_encodeSizeUpdate hann
  obtain ⟨hfields, hpaired'⟩ := hpaired.decodeFrom_encodeFields hann.indices hvalid [] 0
  have hdecode : s.dec.decode (s.enc.encode headers).1 = (.ok headers,
      { dec' with dynamicTable := (s.enc.encode headers).2.dynamicTable }) := by
    rw [HpackDecoder.decode_eq_decodeFrom]
    exact (hupdate _ _ _).trans hfields
  have hpend : (s.enc.encode headers).2.tableSizeUpdatePending = false :=
    (encodeFields_pending _ headers).trans (encodeSizeUpdate_pending s.enc)
  have hstep : s.step (.encode headers) = ⟨(s.enc.encode headers).2,
      { dec' with dynamicTable := (s.enc.encode headers).2.dynamicTable }⟩ := by
    simp only [step, hdecode]
  refine ⟨⟨by rw [hdecode], by rw [hstep], by rw [hstep]⟩, ?_⟩
  rw [hstep]
  exact {
    wf := hpaired'.wf
    huffman := hpaired'.huffman
    limit := hpaired'.limit
    max_eq := hmax
    pending_le := fun h => by simp [hpend] at h
    table_eq := fun _ => rfl
    table_evicted := fun h => by simp [hpend] at h }

theorem Inv.allBlocks (hvalid : ∀ op ∈ ops, op.Valid maxTableSize)
    (hann : AllBlocks Announced s ops) : AllBlocks BlockSynced s ops := by
  induction ops generalizing s with
  | nil => trivial
  | cons op ops ih =>
  have hop := hvalid op List.mem_cons_self
  have hops := fun o ho => hvalid o (List.mem_cons_of_mem op ho)
  cases op with
  | setMaxTableSize size => exact ih (H.setMaxTableSize hop) hops hann
  | encode headers =>
  obtain ⟨hsynced, H'⟩ := H.encode hann.1 hop
  exact ⟨hsynced, ih H' hops hann.2⟩

end

/-- From a common table size on, every block of a run whose announcements are complete is
decoded to the encoded list and leaves both sides with the same table. -/
theorem run_synced (maxTableSize : Nat) (ops : List HpackOp)
    (hvalid : ∀ op ∈ ops, op.Valid maxTableSize)
    (hann : AllBlocks Announced (init maxTableSize) ops) :
    AllBlocks BlockSynced (init maxTableSize) ops :=
  (Inv.init maxTableSize).allBlocks hvalid hann

def sampleOps : List HpackOp := [
  .encode [⟨ascii ":method", ascii "GET"⟩, ⟨ascii "x-a", ascii "1"⟩], .setMaxTableSize 100,
  .encode [⟨ascii "x-a", ascii "1"⟩, ⟨ascii "x-a", ascii "2"⟩, ⟨ascii "cookie", ascii "c"⟩]]

theorem run_synced_sample : AllBlocks BlockSynced (init 4096) sampleOps :=
  run_synced 4096 sampleOps (by simp [sampleOps, HpackOp.Valid, ascii])
    ⟨⟨by decide, by decide, by decide⟩, ⟨by decide, by decide, by decide⟩, trivial⟩

/-- Shrinking and growing again between two blocks announces only the last size: the decoder
keeps the entry that the encoder has evicted. -/
theorem shrink_then_grow_not_synced : ¬ ∀ (maxTableSize : Nat) (ops : List HpackOp),
    (∀ op ∈ ops, op.Valid maxTableSize) → AllBlocks BlockSynced (init maxTableSize) ops := by
  intro h
  have hrun := h 4096
    [.encode [⟨ascii "x-a", ascii "1"⟩], .setMaxTableSize 0, .setMaxTableSize 4096, .encode []]
    (by simp [HpackOp.Valid, ascii])
  have hlast := hrun.2.1.entries_eq
  revert hlast
  decide

end HpackSession

end Galay.Http2
