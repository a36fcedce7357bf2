import Galay.Http2.FrameCodec
import Galay.Http2.Stream

/-!
# What the operations of a stream send

`Emits` says what every operation leaves alone and that it only adds to the send channel;
`Debits` adds that the DATA it enqueues is taken from the window of the stream and from that of the
connection. Every operation but `sendFrames` is of this kind, and every one but `sendWindowUpdate`
also `Sends` no WINDOW_UPDATE.
-/

namespace Galay.Http2

open List

theorem Http2DataFrame.payload_of_not_padded {frame : Http2DataFrame}
    (h : frame.header.isPadded = false) : frame.payload = frame.data := by
  simp [payload, Http2FrameHeader.padField, Http2FrameHeader.padding, h]

/-! ## Windows -/

/-- A window that is large enough is debited without wrapping round. -/
theorem toInt_sub_ofNat (h : bytes ≤ Http2Stream.windowSize window) :
    (window - Int32.ofNat bytes).toInt = window.toInt - bytes := by
  have hlt := window.toInt_lt
  have hle := window.le_toInt
  unfold Http2Stream.windowSize at h
  rw [Int32.toInt_sub, Int32.toInt_ofNat_of_lt (by omega)]
  refine Int.bmod_eq_of_le ?_ ?_ <;> omega

theorem toInt_add_of_lt {delta : Int32} (hlow : -2 ^ 31 ≤ window.toInt + delta.toInt)
    (hhigh : window.toInt + delta.toInt < 2 ^ 31) :
    (window + delta).toInt = window.toInt + delta.toInt := by
  rw [Int32.toInt_add]
  refine Int.bmod_eq_of_le ?_ ?_ <;> omega

theorem toInt_toInt32_of_lt {increment : UInt32} (h : increment.toNat < 2 ^ 31) :
    increment.toInt32.toInt = increment.toNat :=
  BitVec.toInt_eq_toNat_of_lt (x := increment.toBitVec) (by
    rw [UInt32.toNat_toBitVec]
    omega)

/-! ## Items of the send channel -/

namespace Http2OutgoingFrame

def kind : Http2OutgoingFrame → Http2FrameType
  | .frame f => f.kind
  | .bytes b => (Http2FrameHeader.deserialize b).type
  | .segmented header _ => header.type

def streamId : Http2OutgoingFrame → UInt32
  | .frame f => f.header.streamId
  | .bytes b => (Http2FrameHeader.deserialize b).streamId
  | .segmented header _ => header.streamId

def payload : Http2OutgoingFrame → Bytes
  | .frame f => f.payload
  | .bytes b => b.drop kHttp2FrameHeaderLength
  | .segmented _ payload => payload

/-- The payload bytes of a DATA frame on a stream that is asked for. -/
def dataBytes (on : UInt32 → Bool) (item : Http2OutgoingFrame) : Nat :=
  if item.kind = .Data && on item.streamId then item.payload.length else 0

theorem dataBytes_of_kind_ne {item : Http2OutgoingFrame}
    (h : item.kind ≠ .Data) : item.dataBytes on = 0 := by
  simp [dataBytes, h]

theorem kind_rstStreamBytes (streamId : UInt32) (error : Http2ErrorCode) :
    (Http2OutgoingFrame.bytes (Http2FrameBuilder.rstStreamBytes streamId error)).kind =
      .RstStream := by
  simp only [kind, Http2FrameBuilder.rstStreamBytes, buildH2FrameBytes, Http2FrameHeader.serialize,
    Http2FrameHeader.deserialize]
  rfl

end Http2OutgoingFrame

/-- The DATA payload bytes in a list of items. -/
def dataBytes (on : UInt32 → Bool) (items : List Http2OutgoingFrame) : Nat :=
  (items.map (·.dataBytes on)).sum

variable (on : UInt32 → Bool)

@[simp] theorem dataBytes_nil : dataBytes on [] = 0 := rfl

@[simp] theorem dataBytes_cons (item : Http2OutgoingFrame) (items : List Http2OutgoingFrame) :
    dataBytes on (item :: items) = item.dataBytes on + dataBytes on items := by
  simp [dataBytes]

@[simp] theorem dataBytes_append (items items' : List Http2OutgoingFrame) :
    dataBytes on (items ++ items') = dataBytes on items + dataBytes on items' := by
  simp [dataBytes]

variable {on}

theorem dataBytes_eq_zero (h : ∀ item ∈ items, item.kind ≠ .Data) : dataBytes on items = 0 := by
  induction items with
  | nil => rfl
  | cons item items ih =>
  rw [dataBytes_cons, Http2OutgoingFrame.dataBytes_of_kind_ne (h item mem_cons_self),
    ih fun item hitem => h item (mem_cons_of_mem _ hitem)]

/-! ## Specifications -/

abbrev StreamAndIo := Http2Stream × Http2StreamIo

/-- An operation that enqueues `out` and leaves the receiving side of the stream alone. -/
structure Emits (out : List Http2OutgoingFrame) (p p' : StreamAndIo) : Prop where
  streamId : p'.1.streamId = p.1.streamId
  recvWindow : p'.1.recvWindow = p.1.recvWindow
  headerBlock : p'.1.headerBlock = p.1.headerBlock
  channel : p'.2.sendChannel = p.2.sendChannel ++ out
  own : ∀ item ∈ out, item.kind = .Data ∨ item.kind = .WindowUpdate → item.streamId = p.1.streamId

/-- The DATA in `out` is taken from both windows, and they allow it. -/
structure Debits (out : List Http2OutgoingFrame) (p p' : StreamAndIo) : Prop
    extends Emits out p p' where
  sendWindow : p'.1.sendWindow.toInt = p.1.sendWindow.toInt - dataBytes (fun _ => true) out
  connSendWindow : p'.2.connSendWindow.toInt = p.2.connSendWindow.toInt - dataBytes (fun _ => true) out
  within : dataBytes (fun _ => true) out ≤ Http2Stream.windowSize p.2.connSendWindow

structure Sends (out : List Http2OutgoingFrame) (p p' : StreamAndIo) : Prop
    extends Debits out p p' where
  noUpdate : ∀ item ∈ out, item.kind ≠ .WindowUpdate

/-- An operation that sends DATA only, and leaves the limits of the peer alone. -/
structure SendsData (out : List Http2OutgoingFrame) (p p' : StreamAndIo) : Prop
    extends Sends out p p' where
  data : ∀ item ∈ out, item.kind = .Data
  encoder : p'.2.encoder = p.2.encoder
  ioAttached : p'.1.ioAttached = p.1.ioAttached
  maxFrameSize : p'.1.maxFrameSize = p.1.maxFrameSize

theorem Emits.refl (p : StreamAndIo) : Emits [] p p :=
  ⟨rfl, rfl, rfl, (append_nil _).symm, fun _ h => nomatch h⟩

theorem Debits.refl (p : StreamAndIo) : Debits [] p p :=
  { Emits.refl p with sendWindow := by simp, connSendWindow := by simp, within := by simp }

theorem Sends.refl (p : StreamAndIo) : Sends [] p p :=
  { Debits.refl p with noUpdate := fun _ h => (nomatch h) }

theorem SendsData.refl (p : StreamAndIo) : SendsData [] p p :=
  { Sends.refl p with
    data := fun _ h => (nomatch h), encoder := rfl, ioAttached := rfl, maxFrameSize := rfl }

variable {out out' : List Http2OutgoingFrame} {p q r : StreamAndIo}

theorem Emits.trans (h : Emits out p q) (h' : Emits out' q r) : Emits (out ++ out') p r where
  streamId := h'.streamId.trans h.streamId
  recvWindow := h'.recvWindow.trans h.recvWindow
  headerBlock := h'.headerBlock.trans h.headerBlock
  channel := by rw [h'.channel, h.channel, append_assoc]
  own item hitem hkind := by
    rcases mem_append.1 hitem with hitem | hitem
    · exact h.own item hitem hkind
    exact (h'.own item hitem hkind).trans h.streamId

theorem Debits.trans (h : Debits out p q) (h' : Debits out' q r) : Debits (out ++ out') p r where
  toEmits := h.toEmits.trans h'.toEmits
  sendWindow := by
    rw [h'.sendWindow, h.sendWindow, dataBytes_append]
    omega
  connSendWindow := by
    rw [h'.connSendWindow, h.connSendWindow, dataBytes_append]
    omega
  within := by
    have h1 := h.within
    have h2 := h'.within
    unfold Http2Stream.windowSize at h1 h2 ⊢
    rw [h.connSendWindow] at h2
    rw [dataBytes_append]
    omega

theorem Sends.trans (h : Sends out p q) (h' : Sends out' q r) : Sends (out ++ out') p r where
  toDebits := h.toDebits.trans h'.toDebits
  noUpdate item hitem := (mem_append.1 hitem).elim (h.noUpdate item) (h'.noUpdate item)

theorem Debits.connSendWindow_eq (h : Debits [] p q) : q.2.connSendWindow = p.2.connSendWindow :=
  Int32.toInt_inj.1 (by simpa using h.connSendWindow)

theorem Debits.sendWindow_eq (h : Debits [] p q) : q.1.sendWindow = p.1.sendWindow :=
  Int32.toInt_inj.1 (by simpa using h.sendWindow)

theorem SendsData.trans (h : SendsData out p q) (h' : SendsData out' q r) :
    SendsData (out ++ out') p r where
  toSends := h.toSends.trans h'.toSends
  data item hitem := (mem_append.1 hitem).elim (h.data item) (h'.data item)
  encoder := h'.encoder.trans h.encoder
  ioAttached := h'.ioAttached.trans h.ioAttached
  maxFrameSize := h'.maxFrameSize.trans h.maxFrameSize

namespace Http2Stream

/-- The fields of a stream that the windows and the header blocks depend on. -/
structure Core where
  streamId : UInt32
  sendWindow : Int32
  recvWindow : Int32
  headerBlock : Bytes

def core (stream : Http2Stream) : Core where
  streamId := stream.streamId
  sendWindow := stream.sendWindow
  recvWindow := stream.recvWindow
  headerBlock := stream.headerBlock

end Http2Stream

theorem Sends.of_core (h : stream'.core = stream.core) : Sends [] (stream, io) (stream', io) := by
  injection h with h1 h2 h3 h4
  exact { streamId := h1, recvWindow := h3, headerBlock := h4
          channel := (append_nil _).symm, own := fun _ h => (nomatch h)
          sendWindow := by simp [h2], connSendWindow := by simp, within := by simp
          noUpdate := fun _ h => (nomatch h) }

theorem SendsData.of_core
    (h : stream'.core = stream.core) (hattached : stream'.ioAttached = stream.ioAttached)
    (hsize : stream'.maxFrameSize = stream.maxFrameSize) : SendsData [] (stream, io) (stream', io) :=
  { Sends.of_core h with
    data := fun _ h => (nomatch h), encoder := rfl, ioAttached := hattached, maxFrameSize := hsize }

namespace Http2Stream

/-! ## State transitions -/

theorem closeFrameQueue_core (stream : Http2Stream) : stream.closeFrameQueue.core = stream.core := by
  unfold closeFrameQueue
  split <;> rfl

theorem pushFrame_core (frame : Http2Frame) (stream : Http2Stream) :
    (stream.pushFrame frame).core = stream.core := by
  unfold pushFrame
  split <;> rfl

theorem notifyRetireIfClosed_sends (stream : Http2Stream) (io : Http2StreamIo) :
    SendsData [] (stream, io) (stream.notifyRetireIfClosed io) := by
  unfold notifyRetireIfClosed Http2StreamIo.enqueueRetireStream
  split
  · split
    · exact .refl _
    exact { SendsData.refl (stream, io) with }
  exact .refl _

/-- A change of the state of the stream, and the callback when it is closed. -/
theorem transition_sends {stream' : Http2Stream} (io : Http2StreamIo)
    (h : stream'.core = stream.core ∧ stream'.ioAttached = stream.ioAttached ∧
      stream'.maxFrameSize = stream.maxFrameSize) :
    SendsData [] (stream, io) (stream'.notifyRetireIfClosed io) :=
  (SendsData.of_core h.1 h.2.1 h.2.2).trans (notifyRetireIfClosed_sends stream' io)

section

variable (endStream : Bool) (stream : Http2Stream) (io : Http2StreamIo)
include endStream stream io

theorem onHeadersReceived_sends :
    SendsData [] (stream, io) (stream.onHeadersReceived endStream io) := by
  refine transition_sends io ?_
  split <;> split <;> exact ⟨rfl, rfl, rfl⟩

theorem onDataReceived_sends :
    SendsData [] (stream, io) (stream.onDataReceived endStream io) := by
  refine transition_sends io ?_
  split <;> exact ⟨rfl, rfl, rfl⟩

theorem onHeadersSent_sends :
    SendsData [] (stream, io) (stream.onHeadersSent endStream io) := by
  refine transition_sends io ?_
  split <;> split <;> try split
  all_goals exact ⟨rfl, rfl, rfl⟩

theorem onDataSent_sends :
    SendsData [] (stream, io) (stream.onDataSent endStream io) := by
  refine transition_sends io ?_
  split <;> exact ⟨rfl, rfl, rfl⟩

end

theorem onRstStreamReceived_sends (stream : Http2Stream) (io : Http2StreamIo) :
    SendsData [] (stream, io) (stream.onRstStreamReceived io) :=
  transition_sends io ⟨rfl, rfl, rfl⟩

theorem onRstStreamSent_sends (stream : Http2Stream) (io : Http2StreamIo) :
    SendsData [] (stream, io) (stream.onRstStreamSent io) :=
  transition_sends io ⟨rfl, rfl, rfl⟩

/-! ## Sending DATA -/

theorem enqueue_data_sends (stream : Http2Stream) (io : Http2StreamIo) (header : Http2FrameHeader)
    (payload : Bytes) (htype : header.type = .Data) (hid : header.streamId = stream.streamId)
    (hwin : payload.length ≤ windowSize stream.sendWindow)
    (hconn : payload.length ≤ windowSize io.connSendWindow) :
    SendsData [.segmented header payload] (stream, io)
      (stream.consumeDataSendWindow payload.length (io.enqueue [.segmented header payload])) := by
  have hbytes : dataBytes (fun _ => true) [.segmented header payload] = payload.length := by
    simp [Http2OutgoingFrame.dataBytes, Http2OutgoingFrame.kind, Http2OutgoingFrame.payload, htype]
  exact { streamId := rfl, recvWindow := rfl, headerBlock := rfl, channel := rfl
          own := fun item hitem _ => by rw [mem_singleton.1 hitem]; exact hid
          sendWindow := by rw [hbytes]; exact toInt_sub_ofNat hwin
          connSendWindow := by rw [hbytes]; exact toInt_sub_ofNat hconn
          within := by rw [hbytes]; exact hconn
          noUpdate := fun item hitem => by
            rw [mem_singleton.1 hitem, Http2OutgoingFrame.kind, htype]; nofun
          data := fun item hitem => by rw [mem_singleton.1 hitem]; exact htype
          encoder := rfl, ioAttached := rfl, maxFrameSize := rfl }

theorem enqueue_empty_sends (stream : Http2Stream) (io : Http2StreamIo) (endStream : Bool) :
    SendsData [.segmented (Http2FrameBuilder.dataHeaderBytes stream.streamId 0 endStream) []]
      (stream, io) (stream, io.enqueue
        [.segmented (Http2FrameBuilder.dataHeaderBytes stream.streamId 0 endStream) []]) := by
  have h := enqueue_data_sends stream io
    (Http2FrameBuilder.dataHeaderBytes stream.streamId 0 endStream) [] rfl rfl
    (Nat.zero_le _) (Nat.zero_le _)
  simpa [consumeDataSendWindow] using h

theorem ite_onDataSent_sends (endStream : Bool) (p : StreamAndIo) :
    SendsData [] p (if endStream then p.1.onDataSent true p.2 else p) := by
  split
  · exact p.1.onDataSent_sends true p.2
  exact .refl _

theorem flushPendingDataFront_sends {stream : Http2Stream}
    (h : stream.flushPendingDataFront pending io = some (rest, p)) :
    ∃ out, SendsData out (stream, io) p := by
  unfold flushPendingDataFront at h
  split at h
  · -- an empty payload is a frame of its own, whatever the windows are
    injection h with h
    injection h with _ h
    subst h
    have hsent := ite_onDataSent_sends pending.endStream (stream, io)
    have hframe := enqueue_empty_sends
      (if pending.endStream then stream.onDataSent true io else (stream, io)).1
      (if pending.endStream then stream.onDataSent true io else (stream, io)).2 pending.endStream
    rw [hsent.streamId] at hframe
    exact ⟨_, hsent.trans hframe⟩
  dsimp only at h
  split at h
  · exact nomatch h
  injection h with h
  injection h with _ h
  subst h
  have hlen : ((pending.payload.drop pending.offset).take
      (stream.availableDataChunkSize pending io)).length =
      stream.availableDataChunkSize pending io := by
    rw [length_take, length_drop]
    exact Nat.min_eq_left (Nat.min_le_left _ _)
  have hchunk : stream.availableDataChunkSize pending io ≤
      min (windowSize stream.sendWindow) (windowSize io.connSendWindow) :=
    (Nat.min_le_right _ _).trans (Nat.min_le_right _ _)
  have hframe := enqueue_data_sends stream io
    (Http2FrameBuilder.dataHeaderBytes stream.streamId
      (stream.availableDataChunkSize pending io) (pending.endStream &&
        pending.offset + stream.availableDataChunkSize pending io = pending.payload.length))
    ((pending.payload.drop pending.offset).take (stream.availableDataChunkSize pending io)) rfl rfl
    (by rw [hlen]; exact hchunk.trans (Nat.min_le_left _ _))
    (by rw [hlen]; exact hchunk.trans (Nat.min_le_right _ _))
  rw [hlen] at hframe
  exact ⟨_, hframe.trans (ite_onDataSent_sends _ _)⟩

theorem flushPendingDataItem_sends (rounds : Nat) (pending : PendingDataSend) (stream : Http2Stream)
    (io : Http2StreamIo) :
    ∃ out, SendsData out (stream, io) (stream.flushPendingDataItem rounds pending io).2 := by
  induction rounds generalizing pending stream io with
  | zero => exact ⟨_, .refl _⟩
  | succ rounds ih =>
  unfold flushPendingDataItem
  split
  · exact ⟨_, .refl _⟩
  · next h => exact flushPendingDataFront_sends h
  next pending' stream' io' h =>
  obtain ⟨out, hfront⟩ := flushPendingDataFront_sends h
  obtain ⟨out', hrest⟩ := ih pending' stream' io'
  exact ⟨_, hfront.trans hrest⟩

theorem flushPendingDataQueue_sends (queue : List PendingDataSend) (stream : Http2Stream)
    (io : Http2StreamIo) :
    ∃ out, SendsData out (stream, io) (flushPendingDataQueue queue stream io).2 := by
  induction queue generalizing stream io with
  | nil => exact ⟨_, .refl _⟩
  | cons pending queue ih =>
  obtain ⟨out, hitem⟩ := flushPendingDataItem_sends (pending.payload.length + 1) pending stream io
  unfold flushPendingDataQueue
  split
  · next h => exact ⟨_, h ▸ hitem⟩
  next stream' io' h =>
  obtain ⟨out', hrest⟩ := ih stream' io'
  rw [h] at hitem
  exact ⟨_, hitem.trans hrest⟩

theorem flushPendingData_sends (stream : Http2Stream) (io : Http2StreamIo) :
    ∃ out, SendsData out (stream, io) (stream.flushPendingData io) := by
  unfold flushPendingData
  split
  · obtain ⟨out, h⟩ := flushPendingDataQueue_sends stream.pendingData stream io
    exact ⟨_, h.trans (SendsData.of_core rfl rfl rfl)⟩
  exact ⟨_, .refl _⟩

theorem queueDataForSend_sends (payload : Bytes) (endStream : Bool) (stream : Http2Stream)
    (io : Http2StreamIo) :
    ∃ out, SendsData out (stream, io) (stream.queueDataForSend payload endStream io) := by
  unfold queueDataForSend
  split
  · obtain ⟨out, h⟩ := flushPendingData_sends
      { stream with pendingData := stream.pendingData ++ [{ payload, endStream }] } io
    have hqueue : SendsData [] (stream, io)
        ({ stream with pendingData := stream.pendingData ++ [{ payload, endStream }] }, io) :=
      .of_core rfl rfl rfl
    exact ⟨_, hqueue.trans h⟩
  exact ⟨_, .refl _⟩

theorem queueChunks_sends (endStream : Bool) (chunks : List Bytes) (stream : Http2Stream)
    (io : Http2StreamIo) :
    ∃ out, SendsData out (stream, io) (queueChunks endStream chunks stream io) := by
  induction chunks generalizing stream io with
  | nil => exact ⟨_, .refl _⟩
  | cons chunk chunks ih =>
  obtain ⟨out, hfirst⟩ :=
    queueDataForSend_sends chunk (endStream && chunks.isEmpty) stream io
  obtain ⟨out', hrest⟩ := ih (stream.queueDataForSend chunk (endStream && chunks.isEmpty) io).1
    (stream.queueDataForSend chunk (endStream && chunks.isEmpty) io).2
  exact ⟨_, hfirst.trans hrest⟩

theorem sendDataBatchInternal_sends (chunks : List Bytes) (endStream : Bool) (stream : Http2Stream)
    (io : Http2StreamIo) :
    ∃ out, SendsData out (stream, io) (stream.sendDataBatchInternal chunks endStream io) := by
  unfold sendDataBatchInternal
  split
  · split
    · exact queueDataForSend_sends _ _ _ _
    exact ⟨_, .refl _⟩
  exact queueChunks_sends _ _ _ _

theorem sendDataChunksInternal_sends (chunks : List Bytes) (endStream : Bool) (stream : Http2Stream)
    (io : Http2StreamIo) :
    ∃ out, SendsData out (stream, io) (stream.sendDataChunksInternal chunks endStream io) := by
  unfold sendDataChunksInternal
  split
  · exact queueDataForSend_sends _ _ _ _
  exact sendDataBatchInternal_sends _ _ _ _

/-- A flush after a change of the limits. -/
theorem flush_of_core {stream' : Http2Stream} (io : Http2StreamIo)
    (h : stream'.core = stream.core) : ∃ out, Sends out (stream, io) (stream'.flushPendingData io) := by
  obtain ⟨out, hflush⟩ := stream'.flushPendingData_sends io
  exact ⟨_, (Sends.of_core h).trans hflush.toSends⟩

theorem attachIo_sends (maxFrameSize maxHeaderListSize : UInt32) (stream : Http2Stream)
    (io : Http2StreamIo) :
    ∃ out, Sends out (stream, io) (stream.attachIo maxFrameSize maxHeaderListSize io) :=
  flush_of_core io rfl

/-! ## Sending other frames -/

theorem enqueue_other_sends (stream : Http2Stream) (io : Http2StreamIo)
    (h : ∀ item ∈ items, item.kind ≠ .Data ∧ item.kind ≠ .WindowUpdate) :
    Sends items (stream, io) (stream, io.enqueue items) := by
  have hbytes : dataBytes (fun _ => true) items = 0 :=
    dataBytes_eq_zero fun item hitem => (h item hitem).1
  exact { streamId := rfl, recvWindow := rfl, headerBlock := rfl, channel := rfl
          own := fun item hitem hkind =>
            absurd hkind (not_or.2 ⟨(h item hitem).1, (h item hitem).2⟩)
          sendWindow := by simp [hbytes]
          connSendWindow := by simp [hbytes, Http2StreamIo.enqueue]
          within := by simp [hbytes]
          noUpdate := fun item hitem => (h item hitem).2 }

theorem headerFrames_kind {streamId : UInt32} {maxFrameSize : Nat}
    (h : item ∈ headerFrames streamId maxFrameSize endStream endHeaders rounds first rest) :
    item.kind = .Headers ∨ item.kind = .Continuation := by
  induction rounds generalizing first rest with
  | zero => exact nomatch h
  | succ rounds ih =>
  unfold headerFrames at h
  split at h
  · exact nomatch h
  rcases mem_cons.1 h with rfl | h
  · cases first
    · exact .inr rfl
    exact .inl rfl
  exact ih h

theorem sendEncodedHeadersInternal_sends (headerBlock : Bytes) (endStream endHeaders : Bool)
    (stream : Http2Stream) (io : Http2StreamIo) :
    ∃ out, Sends out (stream, io)
      (stream.sendEncodedHeadersInternal headerBlock endStream endHeaders io) := by
  unfold sendEncodedHeadersInternal
  split
  · exact ⟨_, .refl _⟩
  split
  · refine ⟨_, (enqueue_other_sends stream io ?_).trans (onHeadersSent_sends _ _ _).toSends⟩
    intro item hitem
    rw [mem_singleton.1 hitem]
    exact ⟨nofun, nofun⟩
  refine ⟨_, (enqueue_other_sends stream io ?_).trans (onHeadersSent_sends _ _ _).toSends⟩
  intro item hitem
  rcases headerFrames_kind hitem with h | h <;> rw [h] <;> exact ⟨nofun, nofun⟩

theorem sendEncodedHeadersAndDataInternal_sends (headerBlock data : Bytes) (endHeaders : Bool)
    (stream : Http2Stream) (io : Http2StreamIo) :
    ∃ out, Sends out (stream, io)
      (stream.sendEncodedHeadersAndDataInternal headerBlock data endHeaders io) := by
  unfold sendEncodedHeadersAndDataInternal
  split
  · exact ⟨_, .refl _⟩
  obtain ⟨out, hhdrs⟩ :=
    sendEncodedHeadersInternal_sends headerBlock data.isEmpty endHeaders stream io
  dsimp only
  split
  · exact ⟨_, hhdrs⟩
  obtain ⟨out', hdata⟩ := queueDataForSend_sends data true
    (stream.sendEncodedHeadersInternal headerBlock data.isEmpty endHeaders io).1
    (stream.sendEncodedHeadersInternal headerBlock data.isEmpty endHeaders io).2
  exact ⟨_, hhdrs.trans hdata.toSends⟩

theorem sendEncodedHeadersAndDataChunksInternal_sends (headerBlock : Bytes) (chunks : List Bytes)
    (endHeaders : Bool) (stream : Http2Stream) (io : Http2StreamIo) :
    ∃ out, Sends out (stream, io)
      (stream.sendEncodedHeadersAndDataChunksInternal headerBlock chunks endHeaders io) := by
  unfold sendEncodedHeadersAndDataChunksInternal
  split
  · exact sendEncodedHeadersAndDataInternal_sends _ _ _ _ _
  split
  · exact ⟨_, .refl _⟩
  obtain ⟨out, hhdrs⟩ :=
    sendEncodedHeadersInternal_sends headerBlock chunks.isEmpty endHeaders stream io
  obtain ⟨out', hdata⟩ := queueChunks_sends true chunks
    (stream.sendEncodedHeadersInternal headerBlock chunks.isEmpty endHeaders io).1
    (stream.sendEncodedHeadersInternal headerBlock chunks.isEmpty endHeaders io).2
  exact ⟨_, hhdrs.trans hdata.toSends⟩

/-- The encoder is none of the windows' business. -/
theorem encoder_sends (stream : Http2Stream) (io : Http2StreamIo) (encoder : HpackEncoder) :
    Sends [] (stream, io) (stream, { io with encoder }) :=
  { Sends.refl (stream, io) with }

section

variable (headers : List Http2HeaderField)

include headers

theorem sendHeadersInternal_sends (endStream endHeaders : Bool)
    (stream : Http2Stream) (io : Http2StreamIo) :
    ∃ out, Sends out (stream, io) (stream.sendHeadersInternal headers endStream endHeaders io) := by
  unfold sendHeadersInternal
  split
  · exact ⟨_, .refl _⟩
  obtain ⟨out, h⟩ := sendEncodedHeadersInternal_sends (io.encoder.encode headers).1 endStream
    endHeaders stream { io with encoder := (io.encoder.encode headers).2 }
  exact ⟨_, (encoder_sends stream io _).trans h⟩

theorem sendHeadersAndDataInternal_sends (data : Bytes)
    (endHeaders : Bool) (stream : Http2Stream) (io : Http2StreamIo) :
    ∃ out, Sends out (stream, io)
      (stream.sendHeadersAndDataInternal headers data endHeaders io) := by
  unfold sendHeadersAndDataInternal
  split
  · exact ⟨_, .refl _⟩
  obtain ⟨out, h⟩ := sendEncodedHeadersAndDataInternal_sends (io.encoder.encode headers).1 data
    endHeaders stream { io with encoder := (io.encoder.encode headers).2 }
  exact ⟨_, (encoder_sends stream io _).trans h⟩

theorem sendHeadersAndDataChunksInternal_sends
    (chunks : List Bytes) (endHeaders : Bool) (stream : Http2Stream) (io : Http2StreamIo) :
    ∃ out, Sends out (stream, io)
      (stream.sendHeadersAndDataChunksInternal headers chunks endHeaders io) := by
  unfold sendHeadersAndDataChunksInternal
  split
  · exact ⟨_, .refl _⟩
  obtain ⟨out, h⟩ := sendEncodedHeadersAndDataChunksInternal_sends (io.encoder.encode headers).1
    chunks endHeaders stream { io with encoder := (io.encoder.encode headers).2 }
  exact ⟨_, (encoder_sends stream io _).trans h⟩

end

theorem sendRstStreamInternal_sends (error : Http2ErrorCode) (stream : Http2Stream)
    (io : Http2StreamIo) :
    ∃ out, Sends out (stream, io) (stream.sendRstStreamInternal error io) := by
  unfold sendRstStreamInternal
  split
  · exact ⟨_, .refl _⟩
  refine ⟨_, (onRstStreamSent_sends stream io).toSends.trans (enqueue_other_sends _ _ ?_)⟩
  intro item hitem
  rw [mem_singleton.1 hitem, Http2OutgoingFrame.kind_rstStreamBytes]
  exact ⟨nofun, nofun⟩

theorem sendWindowUpdate_debits (increment : UInt32) (stream : Http2Stream) (io : Http2StreamIo) :
    ∃ out, Debits out (stream, io) (stream.sendWindowUpdate increment io) := by
  unfold sendWindowUpdate
  split
  · exact ⟨_, .refl _⟩
  exact ⟨_, {
    Emits.refl (stream, io) with
    channel := rfl
    own := fun item hitem _ => by rw [mem_singleton.1 hitem]; rfl
    sendWindow := by simp [Http2OutgoingFrame.dataBytes, Http2OutgoingFrame.kind, Http2Frame.kind]
    connSendWindow := by
      simp [Http2OutgoingFrame.dataBytes, Http2OutgoingFrame.kind, Http2Frame.kind,
        Http2StreamIo.enqueue]
    within := by simp [Http2OutgoingFrame.dataBytes, Http2OutgoingFrame.kind, Http2Frame.kind] }⟩

/-! ## `sendFrames` -/

theorem withStreamId_streamId (streamId : UInt32) (frame : Http2Frame) :
    (frame.withStreamId streamId).header.streamId = streamId := by
  cases frame <;> rfl

/-- A DATA frame that is no longer than what an `int32_t` holds, without padding. -/
def PlainData : Http2Frame → Prop
  | .data frame => frame.header.isPadded = false ∧ frame.data.length < 2 ^ 31
  | _ => True

instance PlainData.decidable : DecidablePred PlainData
  | .data frame => inferInstanceAs (Decidable (frame.header.isPadded = false ∧ frame.data.length < 2 ^ 31))
  | .headers _ | .priority _ | .rstStream _ | .settings _ | .pushPromise _ | .ping _ | .goAway _
  | .windowUpdate _ | .continuation _ => inferInstanceAs (Decidable True)

/-- The connection window is not touched; the window of the stream is, by the size of the data. -/
structure SendsFrames (plain : Prop) (out : List Http2OutgoingFrame) (p p' : StreamAndIo) : Prop
    extends Emits [] p p' where
  frames : ∀ item ∈ out, item.streamId = p.1.streamId
  connSendWindow : p'.2.connSendWindow = p.2.connSendWindow
  sendWindow : plain → p'.1.sendWindow.toInt = p.1.sendWindow.toInt - dataBytes (fun _ => true) out

theorem SendsFrames.of_sends
    (h : Sends [] p p') (hid : item.streamId = p.1.streamId) (hkind : item.kind ≠ .Data) :
    SendsFrames plain [item] p p' where
  toEmits := h.toEmits
  frames other hother := by rw [mem_singleton.1 hother]; exact hid
  connSendWindow := h.toDebits.connSendWindow_eq
  sendWindow _ := by
    have hwin := h.sendWindow
    simpa [Http2OutgoingFrame.dataBytes_of_kind_ne hkind] using hwin

theorem SendsFrames.append (h : SendsFrames plain out p q)
    (h' : SendsFrames plain' out' q r) : SendsFrames (plain ∧ plain') (out ++ out') p r where
  toEmits := h.toEmits.trans h'.toEmits
  frames item hitem := by
    rcases mem_append.1 hitem with hitem | hitem
    · exact h.frames item hitem
    exact (h'.frames item hitem).trans h.streamId
  connSendWindow := h'.connSendWindow.trans h.connSendWindow
  sendWindow hplain := by
    rw [h'.sendWindow hplain.2, h.sendWindow hplain.1, dataBytes_append]
    omega

theorem sendOneFrame_spec (frame : Http2Frame) (stream : Http2Stream) (io : Http2StreamIo) :
    SendsFrames (PlainData frame) (stream.sendOneFrame frame io).1 (stream, io)
      (stream.sendOneFrame frame io).2 := by
  have hid := withStreamId_streamId stream.streamId frame
  unfold sendOneFrame
  cases frame with
  | data frame =>
    dsimp only [Http2Frame.withStreamId] at hid ⊢
    split
    · exact { SendsData.refl (stream, io) with
              frames := fun _ h => (nomatch h), connSendWindow := rfl, sendWindow := fun _ => by simp }
    next hfits =>
    have hsent := ite_onDataSent_sends frame.header.isEndStream
      ({ stream with sendWindow := stream.sendWindow - Int32.ofNat frame.data.length }, io)
    refine {
      streamId := hsent.streamId, recvWindow := hsent.recvWindow, headerBlock := hsent.headerBlock
      channel := hsent.channel, own := fun _ h => (nomatch h)
      frames := fun item hitem => by rw [mem_singleton.1 hitem]; exact hid
      connSendWindow := hsent.toDebits.connSendWindow_eq
      sendWindow := fun hplain => ?_ }
    have hsize : frame.data.length ≤ windowSize stream.sendWindow := by
      have hle := Int32.not_lt.1 hfits
      rw [Int32.le_iff_toInt_le, Int32.toInt_ofNat_of_lt hplain.2] at hle
      unfold windowSize
      omega
    have hbytes : dataBytes (fun _ => true) [.frame (.data
        { frame with header := { frame.header with streamId := stream.streamId } })] =
        frame.data.length := by
      rw [dataBytes_cons, dataBytes_nil, Nat.add_zero]
      exact congrArg length (Http2DataFrame.payload_of_not_padded hplain.1)
    rw [hbytes, ← toInt_sub_ofNat hsize]
    exact congrArg Int32.toInt hsent.toDebits.sendWindow_eq
  | headers frame => exact .of_sends (onHeadersSent_sends _ _ _).toSends hid nofun
  | rstStream frame => exact .of_sends (onRstStreamSent_sends _ _).toSends hid nofun
  | _ => exact .of_sends (.refl _) hid nofun

theorem sendFrameList_spec (frames : List Http2Frame) (stream : Http2Stream) (io : Http2StreamIo) :
    SendsFrames (∀ frame ∈ frames, PlainData frame) (sendFrameList frames stream io).1 (stream, io)
      (sendFrameList frames stream io).2 := by
  induction frames generalizing stream io with
  | nil =>
    exact { SendsData.refl (stream, io) with
            frames := fun _ h => (nomatch h), connSendWindow := rfl, sendWindow := fun _ => by simp [sendFrameList] }
  | cons frame frames ih =>
  have h := (sendOneFrame_spec frame stream io).append
    (ih (stream.sendOneFrame frame io).2.1 (stream.sendOneFrame frame io).2.2)
  exact { h with sendWindow := fun hplain => h.sendWindow (forall_mem_cons.1 hplain) }

theorem sendFrameBatchInternal_spec (frames : List Http2Frame) (stream : Http2Stream)
    (io : Http2StreamIo) :
    ∃ out, Emits out (stream, io) (stream.sendFrameBatchInternal frames io) ∧
      (stream.sendFrameBatchInternal frames io).2.connSendWindow = io.connSendWindow ∧
      ((∀ frame ∈ frames, PlainData frame) →
        (stream.sendFrameBatchInternal frames io).1.sendWindow.toInt =
          stream.sendWindow.toInt - dataBytes (fun _ => true) out) := by
  unfold sendFrameBatchInternal
  split
  · exact ⟨_, .refl _, rfl, fun _ => by simp⟩
  have h := sendFrameList_spec frames stream io
  refine ⟨(sendFrameList frames stream io).1, ?_, h.connSendWindow, h.sendWindow⟩
  exact { streamId := h.streamId, recvWindow := h.recvWindow, headerBlock := h.headerBlock
          channel := by simp [Http2StreamIo.enqueue, h.channel]
          own := fun item hitem _ => h.frames item hitem }

end Http2Stream

end Galay.Http2
