import Galay.Http2.Hpack.Sync
import Galay.Http2.StreamFrames
import Galay.Http2.StreamLemmas

/-!
# Header blocks that are sent

The streams of a connection share one encoder. Each call that sends headers encodes them, which
changes the encoder, and then either enqueues the block or drops it because it is too long. The
blocks in the send channel are all the blocks that were encoded exactly when none of them was too
long, and then the decoder of the peer keeps up with the encoder.
-/

namespace Galay.Http2

open List

/-! ## The decoder of the peer -/

/-- The decoder at the other end is up to date but for a size update that is due, the table of the
encoder is within its limit, and the limit is a `uint32_t`. -/
structure HpackSession.InSync (maxTableSize : Nat) (s : HpackSession) : Prop
    extends HpackSession.Inv maxTableSize s where
  size_le : s.enc.dynamicTable.currentSize ≤ s.enc.dynamicTable.maxSize
  maxSize_lt : s.enc.dynamicTable.maxSize < 2 ^ 32
  size_lt : s.enc.tableSizeUpdatePending = true → s.enc.pendingTableSize < 2 ^ 32
  count_eq : s.enc.tableSizeUpdatePending = true →
    s.enc.dynamicTable.count = (s.dec.dynamicTable.setMaxSize s.enc.pendingTableSize).count

/-- What a decoder makes of blocks that come one after the other. -/
def HpackDecoder.decodeBlocks (dec : HpackDecoder) :
    List Bytes → List (Except Http2ErrorCode (List Http2HeaderField)) × HpackDecoder
  | [] => ([], dec)
  | block :: blocks =>
    let (headers, dec) := dec.decode block
    let (rest, dec) := decodeBlocks dec blocks
    (headers :: rest, dec)

section Indices
open HpackEncoder

variable {enc : HpackEncoder}

/-- A table that a `uint32_t` limits has few entries. -/
theorem referencedIndex_lt (hwf : enc.dynamicTable.WF)
    (hsize : enc.dynamicTable.currentSize ≤ enc.dynamicTable.maxSize)
    (hmax : enc.dynamicTable.maxSize < 2 ^ 32)
    (h : enc.referencedIndex field = some index) : index < 2 ^ 32 := by
  have hcount := hwf.count_mul_le
  have hfound : ∀ {k nameOnly}, enc.dynamicTable.find field.name field.value = some (k, nameOnly) →
      HpackStaticTable.size + k + 1 < 2 ^ 32 := by
    intro k nameOnly hfind
    obtain ⟨e, he, -⟩ := hwf.find_spec hfind
    rw [HpackDynamicTable.get_eq] at he
    have hk := (List.getElem?_eq_some_iff.1 he).1
    rw [HpackDynamicTable.length_entries] at hk
    have : HpackStaticTable.size = 61 := rfl
    omega
  unfold referencedIndex at h
  dsimp only at h
  split at h
  · exact nomatch h
  split at h
  · next hfind => exact Option.some.inj h ▸ hfound hfind
  · next hfind =>
    split at h
    · exact nomatch h
    exact Option.some.inj h ▸ hfound hfind
  exact nomatch h

/-- The invariant of the table that an encoder keeps. -/
structure TableFits (enc : HpackEncoder) : Prop where
  wf : enc.dynamicTable.WF
  size_le : enc.dynamicTable.currentSize ≤ enc.dynamicTable.maxSize
  maxSize_lt : enc.dynamicTable.maxSize < 2 ^ 32

theorem TableFits.encodeField (H : TableFits enc) (field : Http2HeaderField) :
    TableFits (enc.encodeField field).2 := by
  rcases HpackSession.encodeField_table enc field with h | h
  · rw [h]
    exact H
  rw [h]
  refine ⟨H.wf.add field, ?_, ?_⟩
  · show (enc.dynamicTable.add field).currentSize ≤ (enc.dynamicTable.add field).maxSize
    rw [HpackDynamicTable.add_maxSize]
    exact H.wf.add_le field
  show (enc.dynamicTable.add field).maxSize < 2 ^ 32
  rw [HpackDynamicTable.add_maxSize]
  exact H.maxSize_lt

theorem TableFits.encodeFields (H : TableFits enc) (headers : List Http2HeaderField) :
    enc.IndicesFit headers ∧ TableFits (enc.encodeFields headers).2 := by
  induction headers generalizing enc with
  | nil => exact ⟨trivial, H⟩
  | cons field headers ih =>
  obtain ⟨hrest, hfits⟩ := ih (H.encodeField field)
  exact ⟨⟨fun index h => referencedIndex_lt H.wf H.size_le H.maxSize_lt h, hrest⟩, hfits⟩

theorem TableFits.encodeSizeUpdate (H : TableFits enc) : TableFits enc.encodeSizeUpdate.2 := by
  unfold HpackEncoder.encodeSizeUpdate
  split
  · exact { H with }
  exact H

end Indices

namespace HpackSession

variable {maxTableSize : Nat} {s : HpackSession}

theorem InSync.encode (H : s.InSync maxTableSize)
    (hvalid : (HpackOp.encode headers).Valid maxTableSize) :
    s.BlockSynced headers ∧ (s.step (.encode headers)).InSync maxTableSize := by
  have hfits : TableFits s.enc := { H with }
  obtain ⟨hindices, hfits'⟩ := hfits.encodeSizeUpdate.encodeFields headers
  obtain ⟨hsynced, hinv⟩ := H.toInv.encode { H with indices := hindices } hvalid
  have hpend : (s.step (.encode headers)).enc.tableSizeUpdatePending = false :=
    (encodeFields_pending _ headers).trans (encodeSizeUpdate_pending s.enc)
  exact ⟨hsynced, { hinv with
    size_le := hfits'.size_le
    maxSize_lt := hfits'.maxSize_lt
    size_lt := fun h => by simp [hpend] at h
    count_eq := fun h => by simp [hpend] at h }⟩

end HpackSession

/-! ## Blocks in the send channel -/

namespace Http2OutgoingFrame

/-- The part of a header block that a frame carries. -/
def headerFragment : Http2OutgoingFrame → Bytes
  | .frame (.headers f) => f.headerBlock
  | .frame (.continuation f) => f.headerBlock
  | item => item.payload

/-- HEADERS starts a block, CONTINUATION adds to the last one. -/
def addToBlocks (blocks : List Bytes) (item : Http2OutgoingFrame) : List Bytes :=
  if item.kind = .Headers then blocks ++ [item.headerFragment]
  else if item.kind = .Continuation then
    blocks.dropLast ++ [blocks.getLastD [] ++ item.headerFragment]
  else blocks

theorem addToBlocks_headers (h : item.kind = .Headers)
    (blocks : List Bytes) : addToBlocks blocks item = blocks ++ [item.headerFragment] :=
  if_pos h

theorem addToBlocks_continuation (h : item.kind = .Continuation)
    (blocks : List Bytes) (block : Bytes) :
    addToBlocks (blocks ++ [block]) item = blocks ++ [block ++ item.headerFragment] := by
  simp [addToBlocks, h]

end Http2OutgoingFrame

/-- The header blocks of the frames of a channel. -/
def headerBlocks (items : List Http2OutgoingFrame) : List Bytes :=
  items.foldl Http2OutgoingFrame.addToBlocks []

theorem foldl_addToBlocks_of_data {items : List Http2OutgoingFrame}
    (h : ∀ item ∈ items, item.kind = .Data) (blocks : List Bytes) :
    items.foldl Http2OutgoingFrame.addToBlocks blocks = blocks := by
  induction items with
  | nil => rfl
  | cons item items ih =>
  have hitem := h item mem_cons_self
  rw [foldl_cons, Http2OutgoingFrame.addToBlocks, if_neg (by simp [hitem]),
    if_neg (by simp [hitem])]
  exact ih fun item hitem => h item (mem_cons_of_mem _ hitem)

namespace Http2Stream

/-- A stream that can send: the frame size is never `0`, since `attachIo` and the settings of the
peer keep it above the least that is allowed. -/
structure Ready (stream : Http2Stream) : Prop where
  ioAttached : stream.ioAttached = true
  maxFrameSize : 0 < stream.maxFrameSize.toNat

theorem foldl_continuationFrames (streamId : UInt32) {maxFrameSize : Nat} (hsize : 0 < maxFrameSize)
    (endStream endHeaders : Bool) (hrounds : rest.length ≤ rounds)
    (blocks : List Bytes) (block : Bytes) :
    (headerFrames streamId maxFrameSize endStream endHeaders rounds false rest).foldl
      Http2OutgoingFrame.addToBlocks (blocks ++ [block]) = blocks ++ [block ++ rest] := by
  induction rounds generalizing rest block with
  | zero =>
    rw [eq_nil_of_length_eq_zero (Nat.le_zero.1 hrounds)]
    simp [headerFrames]
  | succ rounds ih =>
  unfold headerFrames
  split
  · next h => simp [h]
  next h =>
  have hpos := List.length_pos_iff.2 h
  dsimp only
  rw [foldl_cons, Http2OutgoingFrame.addToBlocks_continuation rfl,
    ih (by rw [length_drop]; omega), append_assoc]
  exact congrArg (fun rest => blocks ++ [block ++ rest]) (take_append_drop _ rest)

theorem foldl_headerFrames (streamId : UInt32) {maxFrameSize : Nat} (hsize : 0 < maxFrameSize)
    (endStream endHeaders : Bool) {block : Bytes} (hblock : block ≠ []) (blocks : List Bytes) :
    (headerFrames streamId maxFrameSize endStream endHeaders block.length true block).foldl
      Http2OutgoingFrame.addToBlocks blocks = blocks ++ [block] := by
  have hpos := List.length_pos_iff.2 hblock
  obtain ⟨rounds, hrounds⟩ := Nat.exists_eq_add_of_lt hpos
  rw [Nat.zero_add] at hrounds
  rw [hrounds]
  unfold headerFrames
  rw [if_neg hblock]
  dsimp only
  rw [foldl_cons, Http2OutgoingFrame.addToBlocks_headers rfl,
    foldl_continuationFrames streamId hsize endStream endHeaders (by rw [length_drop]; omega)]
  exact congrArg (fun block => blocks ++ [block]) (take_append_drop _ block)

/-- The block of a call is put into the channel whole, if it is not too long. -/
structure SendsBlock (block : Bytes) (encoder : HpackEncoder) (fits : Prop) [Decidable fits]
    (p p' : StreamAndIo) : Prop where
  streamId : p'.1.streamId = p.1.streamId
  ready : p'.1.Ready
  encoder_eq : p'.2.encoder = encoder
  blocks : headerBlocks p'.2.sendChannel =
    headerBlocks p.2.sendChannel ++ if fits then [block] else []

theorem SendsBlock.data {block : Bytes} {encoder : HpackEncoder} {fits : Prop} [Decidable fits]
    {out : List Http2OutgoingFrame} {p q r : StreamAndIo} (h : SendsBlock block encoder fits p q)
    (h' : SendsData out q r) : SendsBlock block encoder fits p r where
  streamId := h'.streamId.trans h.streamId
  ready := ⟨h'.ioAttached.trans h.ready.ioAttached, h'.maxFrameSize ▸ h.ready.maxFrameSize⟩
  encoder_eq := h'.encoder.trans h.encoder_eq
  blocks := by
    rw [← h.blocks, h'.channel, headerBlocks, headerBlocks, foldl_append,
      foldl_addToBlocks_of_data h'.data]

variable {stream : Http2Stream}

theorem sendEncodedHeadersInternal_block (hready : stream.Ready) (block : Bytes)
    (endStream endHeaders : Bool) (io : Http2StreamIo) :
    SendsBlock block io.encoder (block.length ≤ stream.maxHeaderListSize.toNat) (stream, io)
      (stream.sendEncodedHeadersInternal block endStream endHeaders io) := by
  unfold sendEncodedHeadersInternal
  rw [hready.ioAttached]
  split
  · next h =>
    have hlong : ¬ block.length ≤ stream.maxHeaderListSize.toNat := by simpa using h
    exact ⟨rfl, hready, rfl, by simp [hlong]⟩
  next h =>
  have hfits : block.length ≤ stream.maxHeaderListSize.toNat := by simpa using h
  have henqueue : ∀ items : List Http2OutgoingFrame,
      (∀ blocks, items.foldl Http2OutgoingFrame.addToBlocks blocks = blocks ++ [block]) →
      SendsBlock block io.encoder (block.length ≤ stream.maxHeaderListSize.toNat) (stream, io)
        (stream, io.enqueue items) := by
    intro items hitems
    refine ⟨rfl, hready, rfl, ?_⟩
    rw [if_pos hfits, headerBlocks, headerBlocks, Http2StreamIo.enqueue, foldl_append, hitems]
  split
  · next hnil =>
    refine (henqueue _ fun blocks => ?_).data (onHeadersSent_sends _ _ _)
    rw [hnil, foldl_cons, foldl_nil, Http2OutgoingFrame.addToBlocks_headers rfl]
    rfl
  next hnil =>
  exact (henqueue _ (foldl_headerFrames _ hready.maxFrameSize _ _ hnil)).data
    (onHeadersSent_sends _ _ _)

theorem sendEncodedHeadersAndDataInternal_block (hready : stream.Ready) (block data : Bytes)
    (endHeaders : Bool) (io : Http2StreamIo) :
    SendsBlock block io.encoder (block.length ≤ stream.maxHeaderListSize.toNat) (stream, io)
      (stream.sendEncodedHeadersAndDataInternal block data endHeaders io) := by
  unfold sendEncodedHeadersAndDataInternal
  rw [hready.ioAttached]
  split
  · next h =>
    have hlong : ¬ block.length ≤ stream.maxHeaderListSize.toNat := by simpa using h
    exact ⟨rfl, hready, rfl, by simp [hlong]⟩
  have hhdrs := sendEncodedHeadersInternal_block hready block data.isEmpty endHeaders io
  dsimp only
  split
  · exact hhdrs
  obtain ⟨out, hdata⟩ := queueDataForSend_sends data true
    (stream.sendEncodedHeadersInternal block data.isEmpty endHeaders io).1
    (stream.sendEncodedHeadersInternal block data.isEmpty endHeaders io).2
  exact hhdrs.data hdata

theorem sendEncodedHeadersAndDataChunksInternal_block (hready : stream.Ready) (block : Bytes)
    (chunks : List Bytes) (endHeaders : Bool) (io : Http2StreamIo) :
    SendsBlock block io.encoder (block.length ≤ stream.maxHeaderListSize.toNat) (stream, io)
      (stream.sendEncodedHeadersAndDataChunksInternal block chunks endHeaders io) := by
  unfold sendEncodedHeadersAndDataChunksInternal
  rw [hready.ioAttached]
  split
  · exact sendEncodedHeadersAndDataInternal_block hready _ _ _ _
  split
  · next h =>
    have hlong : ¬ block.length ≤ stream.maxHeaderListSize.toNat := by simpa using h
    exact ⟨rfl, hready, rfl, by simp [hlong]⟩
  have hhdrs := sendEncodedHeadersInternal_block hready block chunks.isEmpty endHeaders io
  obtain ⟨out, hdata⟩ := queueChunks_sends true chunks
    (stream.sendEncodedHeadersInternal block chunks.isEmpty endHeaders io).1
    (stream.sendEncodedHeadersInternal block chunks.isEmpty endHeaders io).2
  exact hhdrs.data hdata

end Http2Stream

/-! ## Runs of calls -/

namespace Http2StreamManager

/-- The calls that encode a header list. -/
inductive HeaderCall
  | sendHeaders (headers : List Http2HeaderField) (endStream endHeaders : Bool)
  | sendHeadersAndData (headers : List Http2HeaderField) (data : Bytes) (endHeaders : Bool)
  | sendHeadersAndDataChunks (headers : List Http2HeaderField) (chunks : List Bytes)
      (endHeaders : Bool)

def HeaderCall.headers : HeaderCall → List Http2HeaderField
  | .sendHeaders headers _ _ => headers
  | .sendHeadersAndData headers _ _ => headers
  | .sendHeadersAndDataChunks headers _ _ => headers

def HeaderCall.toStreamCall : HeaderCall → StreamCall
  | .sendHeaders headers endStream endHeaders => .sendHeaders headers endStream endHeaders
  | .sendHeadersAndData headers data endHeaders => .sendHeadersAndData headers data endHeaders
  | .sendHeadersAndDataChunks headers chunks endHeaders =>
    .sendHeadersAndDataChunks headers chunks endHeaders

theorem HeaderCall.run_block (call : HeaderCall) (hready : stream.Ready) (io : Http2StreamIo) :
    Http2Stream.SendsBlock (io.encoder.encode call.headers).1 (io.encoder.encode call.headers).2
      ((io.encoder.encode call.headers).1.length ≤ stream.maxHeaderListSize.toNat) (stream, io)
      (call.toStreamCall.run stream io) := by
  cases call with
  | sendHeaders headers endStream endHeaders =>
    show Http2Stream.SendsBlock _ _ _ _ (stream.sendHeadersInternal headers endStream endHeaders io)
    unfold Http2Stream.sendHeadersInternal
    rw [hready.ioAttached]
    exact { Http2Stream.sendEncodedHeadersInternal_block hready (io.encoder.encode headers).1 endStream
      endHeaders { io with encoder := (io.encoder.encode headers).2 } with }
  | sendHeadersAndData headers data endHeaders =>
    show Http2Stream.SendsBlock _ _ _ _
      (stream.sendHeadersAndDataInternal headers data endHeaders io)
    unfold Http2Stream.sendHeadersAndDataInternal
    rw [hready.ioAttached]
    exact { Http2Stream.sendEncodedHeadersAndDataInternal_block hready (io.encoder.encode headers).1
      data endHeaders { io with encoder := (io.encoder.encode headers).2 } with }
  | sendHeadersAndDataChunks headers chunks endHeaders =>
  show Http2Stream.SendsBlock _ _ _ _
    (stream.sendHeadersAndDataChunksInternal headers chunks endHeaders io)
  unfold Http2Stream.sendHeadersAndDataChunksInternal
  rw [hready.ioAttached]
  exact { Http2Stream.sendEncodedHeadersAndDataChunksInternal_block hready
    (io.encoder.encode headers).1 chunks endHeaders
    { io with encoder := (io.encoder.encode headers).2 } with }

/-- A call on a stream of the table. -/
structure TableCall where
  streamId : UInt32
  call : HeaderCall

variable (s : Http2StreamManager)

def stepCall (c : TableCall) : Http2StreamManager :=
  s.step (.call c.streamId c.call.toStreamCall)

def runCalls (calls : List TableCall) : Http2StreamManager :=
  calls.foldl stepCall s

/-- The block that the encoder makes for a call. -/
def encodedBlock (c : TableCall) : Bytes :=
  (s.io.encoder.encode c.call.headers).1

/-- The calls on streams of the table with the blocks that the encoder makes for them. -/
def encodedCalls (s : Http2StreamManager) : List TableCall → List (TableCall × Bytes)
  | [] => []
  | c :: calls =>
    if (s.conn.getStream c.streamId).isSome then
      (c, s.encodedBlock c) :: (s.stepCall c).encodedCalls calls
    else (s.stepCall c).encodedCalls calls

/-- No block is longer than the peer allows at the time. -/
def BlocksFit (s : Http2StreamManager) : List TableCall → Prop
  | [] => True
  | c :: calls =>
    (∀ stream ∈ s.conn.getStream c.streamId,
      (s.encodedBlock c).length ≤ stream.maxHeaderListSize.toNat) ∧
    (s.stepCall c).BlocksFit calls

def AllReady : Prop := ∀ stream ∈ s.conn.streams, stream.Ready

variable {s}

/-- A call on a stream that is not there does nothing; any other advances the encoder, and puts
its block into the channel if the block fits. -/
theorem stepCall_cases {s : Http2StreamManager} (H : s.AllReady) (c : TableCall) :
    (s.conn.getStream c.streamId = none ∧ s.stepCall c = s) ∨
    ∃ stream, s.conn.getStream c.streamId = some stream ∧ (s.stepCall c).AllReady ∧
      (s.stepCall c).io.encoder = (s.io.encoder.encode c.call.headers).2 ∧
      headerBlocks (s.stepCall c).io.sendChannel = headerBlocks s.io.sendChannel ++
        if (s.encodedBlock c).length ≤ stream.maxHeaderListSize.toNat then [s.encodedBlock c]
        else [] := by
  cases hstream : s.conn.getStream c.streamId with
  | none => exact .inl ⟨rfl, by simp [stepCall, step, onStream, hstream]⟩
  | some stream =>
  refine .inr ⟨stream, rfl, ?_⟩
  have hblock := c.call.run_block (H stream (mem_of_find?_eq_some hstream)) s.io
  have hstep : s.stepCall c =
      { s with conn := s.conn.setStream (c.call.toStreamCall.run stream s.io).1
               io := (c.call.toStreamCall.run stream s.io).2 } := by
    simp [stepCall, step, onStream, hstream]
  rw [hstep]
  refine ⟨?_, hblock.encoder_eq, hblock.blocks⟩
  intro other hother
  obtain ⟨old, hold, rfl⟩ := List.mem_map.1 hother
  split
  · exact hblock.ready
  exact H old hold

theorem length_headerBlocks_runCalls_le {s : Http2StreamManager} (H : s.AllReady)
    (calls : List TableCall) :
    (headerBlocks (s.runCalls calls).io.sendChannel).length ≤
      (headerBlocks s.io.sendChannel).length + (s.encodedCalls calls).length := by
  induction calls generalizing s with
  | nil => exact Nat.le_refl _
  | cons c calls ih =>
  rcases stepCall_cases H c with ⟨hnone, hstep⟩ | ⟨stream, hstream, hready, -, hblocks⟩
  · simpa [runCalls, encodedCalls, hnone, hstep] using ih H
  have hrest := ih hready
  rw [hblocks, length_append] at hrest
  have hlast : (if (s.encodedBlock c).length ≤ stream.maxHeaderListSize.toNat
      then [s.encodedBlock c] else []).length ≤ 1 := by split <;> simp
  simp only [encodedCalls, hstream, Option.isSome_some, if_true, length_cons]
  exact hrest.trans (by omega)

/-- The blocks in the channel are those that were encoded exactly when all of them fit. -/
theorem headerBlocks_runCalls_iff {s : Http2StreamManager} (H : s.AllReady)
    (calls : List TableCall) :
    headerBlocks (s.runCalls calls).io.sendChannel =
      headerBlocks s.io.sendChannel ++ (s.encodedCalls calls).map (·.2) ↔ s.BlocksFit calls := by
  induction calls generalizing s with
  | nil => simp [runCalls, encodedCalls, BlocksFit]
  | cons c calls ih =>
  rcases stepCall_cases H c with ⟨hnone, hstep⟩ | ⟨stream, hstream, hready, -, hblocks⟩
  · simpa [runCalls, encodedCalls, BlocksFit, hnone, hstep] using ih H
  have hrest := ih hready
  have hlength := length_headerBlocks_runCalls_le hready calls
  simp only [BlocksFit, encodedCalls, hstream, Option.mem_some, forall_eq', Option.isSome_some,
    if_true, map_cons]
  by_cases hfits : (s.encodedBlock c).length ≤ stream.maxHeaderListSize.toNat
  · rw [hblocks, if_pos hfits, append_assoc] at hrest
    exact hrest.trans (and_iff_right hfits).symm
  -- the block that was dropped is missing for good
  refine iff_of_false (fun heq => ?_) fun hfit => hfits hfit.1
  rw [hblocks, if_neg hfits, append_nil] at hlength
  have hlen := congrArg List.length heq
  simp only [length_append, length_cons, length_map] at hlen
  have hsame : s.runCalls (c :: calls) = (s.stepCall c).runCalls calls := rfl
  rw [hsame] at hlen
  omega

theorem decodeBlocks_encodedCalls {maxTableSize : Nat} {s : Http2StreamManager} {dec : HpackDecoder}
    (H : s.AllReady) (hsync : HpackSession.InSync maxTableSize ⟨s.io.encoder, dec⟩)
    {calls : List TableCall}
    (hvalid : ∀ c ∈ calls, (HpackOp.encode c.call.headers).Valid maxTableSize) :
    (dec.decodeBlocks ((s.encodedCalls calls).map (·.2))).1 =
      (s.encodedCalls calls).map (.ok ·.1.call.headers) ∧
    HpackSession.InSync maxTableSize
      ⟨(s.runCalls calls).io.encoder, (dec.decodeBlocks ((s.encodedCalls calls).map (·.2))).2⟩ := by
  induction calls generalizing s dec with
  | nil => exact ⟨rfl, hsync⟩
  | cons c calls ih =>
  have hcalls := fun c' hc' => hvalid c' (mem_cons_of_mem c hc')
  rcases stepCall_cases H c with ⟨hnone, hstep⟩ | ⟨stream, hstream, hready, hencoder, -⟩
  · simpa [runCalls, encodedCalls, hnone, hstep] using ih H hsync hcalls
  obtain ⟨hsynced, hsync'⟩ := hsync.encode (hvalid c mem_cons_self)
  have hrest := @ih (s.stepCall c) (dec.decode (s.encodedBlock c)).2 hready
    (by rw [hencoder]; exact hsync') hcalls
  simp only [encodedCalls, hstream, Option.isSome_some, if_true, map_cons,
    HpackDecoder.decodeBlocks]
  exact ⟨by rw [hrest.1]; exact congrArg (· :: _) hsynced.decoded, hrest.2⟩

/-- Every encoded block is in the send channel once and in order exactly when no block was too
long; the decoder of the peer, fed with the blocks of the channel, then has the lists of the calls
and stays in step with the encoder. -/
theorem runCalls_blocks (s : Http2StreamManager) (H : s.AllReady) (calls : List TableCall) :
    (headerBlocks (s.runCalls calls).io.sendChannel =
      headerBlocks s.io.sendChannel ++ (s.encodedCalls calls).map (·.2) ↔ s.BlocksFit calls) ∧
    (s.BlocksFit calls → ∀ maxTableSize dec,
      HpackSession.InSync maxTableSize ⟨s.io.encoder, dec⟩ →
      (∀ c ∈ calls, (HpackOp.encode c.call.headers).Valid maxTableSize) →
      let sent := (headerBlocks (s.runCalls calls).io.sendChannel).drop
        (headerBlocks s.io.sendChannel).length
      (dec.decodeBlocks sent).1 = (s.encodedCalls calls).map (.ok ·.1.call.headers) ∧
      HpackSession.InSync maxTableSize
        ⟨(s.runCalls calls).io.encoder, (dec.decodeBlocks sent).2⟩) := by
  refine ⟨headerBlocks_runCalls_iff H calls, fun hfit maxTableSize dec hsync hvalid => ?_⟩
  dsimp only
  rw [(headerBlocks_runCalls_iff H calls).2 hfit, drop_left]
  exact decodeBlocks_encodedCalls H hsync hvalid

/-- A connection with one open stream; the peer allows header blocks of `maxHeaderListSize`. -/
def oneStream (maxHeaderListSize : UInt32) : Http2StreamManager :=
  { conn := { streams := [{ streamId := 1, state := .Open, ioAttached := true, maxHeaderListSize }] } }

theorem oneStream_ready (maxHeaderListSize : UInt32) : (oneStream maxHeaderListSize).AllReady := by
  intro stream hstream
  rw [List.mem_singleton.1 hstream]
  exact ⟨rfl, show 0 < kDefaultMaxFrameSize.toNat by decide⟩

def sampleCalls : List TableCall :=
  [⟨1, .sendHeaders [⟨ascii ":status", ascii "200"⟩, ⟨ascii "x-a", ascii "1"⟩] false true⟩,
    ⟨1, .sendHeadersAndData [⟨ascii "x-a", ascii "1"⟩] (ascii "ok") true⟩]

theorem runCalls_blocks_oneStream :
    headerBlocks ((oneStream 8192).runCalls sampleCalls).io.sendChannel =
      ((oneStream 8192).encodedCalls sampleCalls).map (·.2) ∧
    (({} : HpackDecoder).decodeBlocks
      ((headerBlocks ((oneStream 8192).runCalls sampleCalls).io.sendChannel).drop 0)).1 =
      ((oneStream 8192).encodedCalls sampleCalls).map (.ok ·.1.call.headers) := by
  have hfit : (oneStream 8192).BlocksFit sampleCalls := by
    refine ⟨fun stream hstream => ?_, fun stream hstream => ?_, trivial⟩
    · rw [← Option.some.inj hstream]
      decide
    rw [← Option.some.inj hstream]
    decide
  have hsync : HpackSession.InSync 4096 ⟨(oneStream 8192).io.encoder, {}⟩ :=
    { HpackSession.Inv.init 4096 with
      size_le := by decide, maxSize_lt := by decide, size_lt := nofun, count_eq := nofun }
  have h := runCalls_blocks (oneStream 8192) (oneStream_ready 8192) sampleCalls
  exact ⟨h.1.2 hfit, (h.2 hfit 4096 {} hsync (by simp [sampleCalls, HpackOp.Valid,
    HeaderCall.headers, ascii])).1⟩

/-- A block that is too long is not sent, but the encoder has its fields in the table. -/
theorem droppedBlock_advances : ¬ ∀ (s : Http2StreamManager) (calls : List TableCall), s.AllReady →
    headerBlocks (s.runCalls calls).io.sendChannel =
      headerBlocks s.io.sendChannel ++ (s.encodedCalls calls).map (·.2) := by
  intro h
  have hrun := h (oneStream 1) [⟨1, .sendHeaders [⟨ascii "x-a", ascii "1"⟩] true true⟩]
    (oneStream_ready 1)
  revert hrun
  decide

end Http2StreamManager

end Galay.Http2
