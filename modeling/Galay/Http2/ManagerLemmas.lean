import Galay.Http2.StreamFrames
import Galay.Http2.StreamLemmas

/-!
# What the steps of the stream manager do to the table of streams
-/

namespace Galay.Http2

open List

/-! ## Lookup in the table -/

namespace Http2Conn

variable {conn : Http2Conn} {streamId : UInt32} {stream : Http2Stream}

theorem streamId_of_getStream (h : conn.getStream streamId = some stream) :
    stream.streamId = streamId := by
  simpa using find?_some h

theorem getStream_setStream_self (h : conn.getStream stream.streamId ≠ none) :
    (conn.setStream stream).getStream stream.streamId = some stream := by
  unfold getStream setStream at *
  dsimp only at h ⊢
  generalize conn.streams = streams at h ⊢
  induction streams with
  | nil => exact absurd rfl h
  | cons other streams ih =>
  by_cases hid : other.streamId = stream.streamId
  · simp [hid]
  simp only [map_cons, find?_cons, hid, if_false, decide_false] at h ⊢
  exact ih h

theorem setStream_setStream (h : stream'.streamId = stream.streamId) :
    (conn.setStream stream).setStream stream' = conn.setStream stream' := by
  simp only [setStream, map_map]
  congr 1
  refine map_congr_left fun other _ => ?_
  by_cases hid : other.streamId = stream.streamId <;> simp [hid, h]

end Http2Conn

namespace Http2StreamManager

variable {s : Http2StreamManager} {streamId : UInt32} {stream : Http2Stream}

/-- An operation of a stream does not change its identifier. -/
def KeepsId (op : Http2Stream → Http2StreamIo → Http2Stream × Http2StreamIo) : Prop :=
  ∀ stream io, (op stream io).1.streamId = stream.streamId

theorem onStream_none (h : s.conn.getStream streamId = none)
    (op : Http2Stream → Http2StreamIo → Http2Stream × Http2StreamIo) :
    s.onStream streamId op = s := by
  simp [onStream, h]

theorem onStream_some (h : s.conn.getStream streamId = some stream)
    (op : Http2Stream → Http2StreamIo → Http2Stream × Http2StreamIo) :
    s.onStream streamId op =
      { s with conn := s.conn.setStream (op stream s.io).1, io := (op stream s.io).2 } := by
  simp [onStream, h]

theorem getStream_onStream (hop : KeepsId op) (h : s.conn.getStream streamId = some stream) :
    (s.onStream streamId op).conn.getStream streamId = some (op stream s.io).1 := by
  have hid : (op stream s.io).1.streamId = streamId :=
    (hop _ _).trans (Http2Conn.streamId_of_getStream h)
  rw [onStream_some h]
  subst hid
  exact Http2Conn.getStream_setStream_self (by rw [h]; nofun)

theorem onStream_onStream (hop : KeepsId op) (hop' : KeepsId op') :
    (s.onStream streamId op).onStream streamId op' =
      s.onStream streamId fun stream io => op' (op stream io).1 (op stream io).2 := by
  cases h : s.conn.getStream streamId with
  | none => rw [onStream_none h, onStream_none h, onStream_none h]
  | some stream =>
  rw [onStream_some (getStream_onStream hop h), onStream_some h, onStream_some h]
  simp only [Http2Conn.setStream_setStream (hop' _ _)]

/-- An operation that does the same to the stream of the table. -/
theorem onStream_congr
    (h : ∀ stream, s.conn.getStream streamId = some stream → op stream s.io = op' stream s.io) :
    s.onStream streamId op = s.onStream streamId op' := by
  cases hstream : s.conn.getStream streamId with
  | none => rw [onStream_none hstream, onStream_none hstream]
  | some stream => rw [onStream_some hstream, onStream_some hstream, h stream hstream]

/-! ## Relations that the housekeeping keeps -/

/-- The two states differ in nothing that windows or header blocks depend on. -/
structure Idle (s s' : Http2StreamManager) : Prop where
  streams : s'.conn.streams = s.conn.streams
  decoder : s'.conn.decoder = s.conn.decoder
  peerSettings : s'.conn.peerSettings = s.conn.peerSettings
  connRecvWindow : s'.conn.connRecvWindow = s.conn.connRecvWindow
  expectingContinuation : s'.conn.expectingContinuation = s.conn.expectingContinuation
  continuationStreamId : s'.conn.continuationStreamId = s.conn.continuationStreamId
  isClient : s'.conn.isClient = s.conn.isClient
  runtimeConfig : s'.conn.runtimeConfig = s.conn.runtimeConfig
  localSettings : s'.conn.localSettings = s.conn.localSettings
  connSendWindow : s'.io.connSendWindow = s.io.connSendWindow
  sendChannel : s'.io.sendChannel = s.io.sendChannel
  activeConnMode : s'.activeConnMode = s.activeConnMode
  pendingActions : s'.pendingActions = s.pendingActions
  staticResponseBatch : s'.staticResponseBatch = s.staticResponseBatch
  staticFileReads : s'.staticFileReads = s.staticFileReads

/-- The operation sends what its windows allow, whatever the stream is. -/
def Sending (op : Http2Stream → Http2StreamIo → Http2Stream × Http2StreamIo) : Prop :=
  ∀ stream io, ∃ out, Sends out (stream, io) (op stream io)

/-- A relation between states before and after, which holds of the changes of streams and of the
housekeeping. -/
structure Quiet (R : Http2StreamManager → Http2StreamManager → Prop) : Prop where
  refl : ∀ s, R s s
  trans : ∀ {s t u}, R s t → R t u → R s u
  idle : ∀ {s s'}, Idle s s' → R s s'
  onStream : ∀ {op} s streamId, Sending op → R s (s.onStream streamId op)
  mapStreams : ∀ {f : Http2Stream → Http2Stream} s, (∀ stream, (f stream).core = stream.core) →
    R s (s.mapStreams f)
  remove : ∀ s streamId, R s (s.removeStream streamId)

/-- The relation also holds of the answers that are no WINDOW_UPDATE. What a handler does besides is
then all that has to be looked at. -/
structure Closed (R : Http2StreamManager → Http2StreamManager → Prop) : Prop extends Quiet R where
  action : ∀ {a} s, (∀ streamId increment, a ≠ .sendWindowUpdate streamId increment) →
    R s (s.enqueueAction a)
  enqueue : ∀ {items} s,
    (∀ item ∈ items, Http2OutgoingFrame.kind item ≠ .Data ∧ item.kind ≠ .WindowUpdate) →
    R s (s.enqueueOutgoing items)

theorem Sending.keepsId (h : Sending op) : KeepsId op := fun stream io => by
  obtain ⟨out, hsends⟩ := h stream io
  exact hsends.streamId

theorem sending_of_core {f : Http2Stream → Http2Stream} (h : ∀ stream, (f stream).core = stream.core) :
    Sending fun stream io => (f stream, io) :=
  fun stream _ => ⟨[], .of_core (h stream)⟩

theorem attachOp_sending (s : Http2StreamManager) : Sending s.attachOp := by
  intro stream io
  unfold attachOp
  split
  · exact ⟨_, .refl _⟩
  obtain ⟨out, h⟩ := stream.attachIo_sends s.conn.peerSettings.maxFrameSize
    s.conn.peerSettings.maxHeaderListSize io
  exact ⟨_, h.trans (Sends.of_core rfl)⟩

namespace Quiet

variable {R : Http2StreamManager → Http2StreamManager → Prop} (H : Quiet R)
include H

variable (s)

variable (streamId)

theorem modifyStream
    (h : ∀ stream, (f stream).core = stream.core) : R s (s.modifyStream streamId f) :=
  H.onStream s streamId (sending_of_core h)

theorem foldl {α : Type} {f : Http2StreamManager → α → Http2StreamManager}
    (hf : ∀ s a, R s (f s a)) (s : Http2StreamManager) (l : List α) : R s (l.foldl f s) := by
  induction l generalizing s with
  | nil => exact H.refl s
  | cons a l ih => exact H.trans (hf s a) (ih (f s a))

theorem clearHotStream (s : Http2StreamManager) (streamId : UInt32) :
    R s (s.clearHotStream streamId) := by
  unfold Http2StreamManager.clearHotStream
  split
  · exact H.idle (by constructor <;> rfl)
  exact H.refl s

theorem rememberHotStream (s : Http2StreamManager) (streamId : UInt32) :
    R s (s.rememberHotStream streamId) := by
  unfold Http2StreamManager.rememberHotStream
  split
  · exact H.refl s
  exact H.idle (by constructor <;> rfl)

theorem enqueueRetireStream (s : Http2StreamManager) (streamId : UInt32) :
    R s (s.enqueueRetireStream streamId) := by
  refine H.idle ?_
  unfold Http2StreamManager.enqueueRetireStream Http2StreamIo.enqueueRetireStream
  split <;> constructor <;> rfl

theorem drainRetiredStreams : R s s.drainRetiredStreams := by
  refine H.trans (H.idle (by constructor <;> rfl)) (H.foldl (fun s streamId => ?_) _ _)
  exact H.trans (H.clearHotStream s streamId) (H.remove _ streamId)

theorem attachStreamIo :
    R s (s.attachStreamIo streamId) :=
  H.onStream s streamId s.attachOp_sending

theorem findAttachedStream (s : Http2StreamManager) (streamId : UInt32) :
    R s (s.findAttachedStream streamId) := by
  unfold Http2StreamManager.findAttachedStream
  split
  · exact H.refl s
  exact H.trans (H.attachStreamIo s streamId) (H.rememberHotStream _ streamId)

theorem queueStreamHandler :
    R s (s.queueStreamHandler streamId) :=
  H.idle (by constructor <;> rfl)

theorem markStreamActive (s : Http2StreamManager) (streamId : UInt32) (events : UInt32) :
    R s (s.markStreamActive streamId events) := by
  unfold Http2StreamManager.markStreamActive
  split
  · exact H.refl s
  split
  · exact H.refl s
  have hmark := H.modifyStream s streamId fun stream =>
    (rfl : (stream.markActive events).core = stream.core)
  refine H.trans hmark ?_
  split
  · exact H.refl _
  exact H.idle (by constructor <;> rfl)

theorem pushStreamFrameIfNeeded (s : Http2StreamManager) (streamId : UInt32) (frame : Http2Frame) :
    R s (s.pushStreamFrameIfNeeded streamId frame) := by
  unfold Http2StreamManager.pushStreamFrameIfNeeded
  split
  · exact H.refl s
  exact H.modifyStream s streamId fun stream => stream.pushFrame_core frame

theorem tryRetireClientStream (s : Http2StreamManager) (streamId : UInt32) :
    R s (s.tryRetireClientStream streamId) := by
  unfold Http2StreamManager.tryRetireClientStream
  split
  · exact H.refl s
  split
  · exact H.remove s streamId
  exact H.refl s

theorem flushActiveStreams (s : Http2StreamManager) : R s s.flushActiveStreams := by
  unfold Http2StreamManager.flushActiveStreams
  split
  · exact H.refl s
  exact H.idle (by constructor <;> rfl)

theorem setLastPeerStreamId :
    R s (s.setLastPeerStreamId streamId) :=
  H.idle (by constructor <;> rfl)

end Quiet

namespace Closed

variable {R : Http2StreamManager → Http2StreamManager → Prop} (H : Closed R)
include H

variable (s)

variable (error : Http2ErrorCode)

theorem enqueueGoawayAction :
    R s (s.enqueueGoawayAction error) :=
  H.action s nofun

theorem enqueueRstStreamAction (streamId : UInt32) (error : Http2ErrorCode) :
    R s (s.enqueueRstStreamAction streamId error) :=
  H.action s nofun

theorem enqueueSendFrame (hdata : frame.kind ≠ .Data)
    (hupdate : frame.kind ≠ .WindowUpdate) : R s (s.enqueueSendFrame frame) :=
  H.enqueue s fun item hitem => by
    rw [List.mem_singleton.1 hitem]
    exact ⟨hdata, hupdate⟩

theorem enqueueGoaway (debug : Bytes)
    (lastStreamId : Option UInt32) : R s (s.enqueueGoaway error debug lastStreamId) :=
  H.trans (H.idle (by constructor <;> rfl)) (H.enqueueSendFrame _ nofun nofun)

theorem stopReader : R s (s.stopReader error) :=
  H.trans (H.enqueueGoaway s error [] none) (H.idle (by constructor <;> rfl))

end Closed

/-! ## Static answers -/

/-- A static answer is appended to the batch, or is left to a worker. -/
structure StaticAnswer (s s' : Http2StreamManager) : Prop where
  conn : s'.conn = s.conn
  sendChannel : s'.io.sendChannel = s.io.sendChannel
  pendingActions : s'.pendingActions = s.pendingActions
  activeConnMode : s'.activeConnMode = s.activeConnMode
  batch : ∃ frames, s'.staticResponseBatch = s.staticResponseBatch ++ frames ∧
    ∀ item ∈ frames, Http2OutgoingFrame.kind item ≠ .WindowUpdate

theorem StaticAnswer.append (s : Http2StreamManager)
    (h : ∀ item ∈ frames, item.kind ≠ .WindowUpdate) : StaticAnswer s (s.appendStaticResponse frames) :=
  ⟨rfl, rfl, rfl, rfl, frames, rfl, h⟩

theorem StaticAnswer.trans (h : StaticAnswer s t) (h' : StaticAnswer t u) : StaticAnswer s u := by
  obtain ⟨frames, hbatch, hframes⟩ := h.batch
  obtain ⟨frames', hbatch', hframes'⟩ := h'.batch
  exact { conn := h'.conn.trans h.conn
          sendChannel := h'.sendChannel.trans h.sendChannel
          pendingActions := h'.pendingActions.trans h.pendingActions
          activeConnMode := h'.activeConnMode.trans h.activeConnMode
          batch := ⟨frames ++ frames', by rw [hbatch', hbatch, append_assoc],
            fun item hitem => (List.mem_append.1 hitem).elim (hframes item) (hframes' item)⟩ }

theorem kind_dataFrames
    (h : item ∈ dataFrames streamId chunks) : item.kind = .Data ∧ item.streamId = streamId := by
  induction chunks with
  | nil => exact nomatch h
  | cons chunk chunks ih =>
  rcases List.mem_cons.1 h with rfl | h
  · exact ⟨rfl, rfl⟩
  exact ih h

theorem staticAnswer_shared (s : Http2StreamManager) (streamId : UInt32) (body : Bytes) :
    StaticAnswer s (s.appendStaticFileSharedDataFrames streamId body) :=
  { StaticAnswer.append s fun item hitem => by
      rw [(kind_dataFrames hitem).1]
      nofun with }

variable {files : StaticFiles}

theorem staticAnswer_schedule {length : Nat}
    (h : s.scheduleStaticFileBodyRead files streamId headerBlock bodyCacheSlot filePath offset length = some s')
    : StaticAnswer s s' := by
  unfold scheduleStaticFileBodyRead at h
  split at h
  · exact nomatch h
  injection h with h
  subst h
  exact ⟨rfl, rfl, rfl, rfl, [], (append_nil _).symm, fun _ h => nomatch h⟩

theorem staticAnswer_sendStaticFile {length : Nat}
    (h : s.sendStaticFile files streamId headerBlock hasBody body bodyCacheable filePath offset length = some s')
    : StaticAnswer s s' := by
  unfold sendStaticFile at h
  split at h
  · exact staticAnswer_schedule h
  have hhdrs : StaticAnswer s (s.appendStaticResponse [.segmented
      (Http2FrameBuilder.headersHeaderBytes streamId headerBlock.length (!hasBody) true)
      headerBlock]) :=
    .append s fun item hitem => by rw [List.mem_singleton.1 hitem]; nofun
  dsimp only at h
  split at h
  · injection h with h
    subst h
    split
    · exact hhdrs.trans (staticAnswer_shared _ streamId _)
    exact hhdrs
  injection h with h
  exact h ▸ hhdrs

theorem staticAnswer_file {range : Bytes}
    (h : s.trySendStaticFile files streamId method path ifNoneMatch range = some s') :
    StaticAnswer s s' := by
  unfold trySendStaticFile at h
  split at h
  · exact nomatch h
  split at h
  · exact nomatch h
  split at h
  · exact nomatch h
  dsimp only at h
  split at h
  · unfold sendStaticFileFastLookup at h
    split at h
    · exact nomatch h
    dsimp only at h
    split at h
    · exact nomatch h
    exact staticAnswer_sendStaticFile h
  unfold sendStaticFileLookup at h
  dsimp only at h
  split at h
  · exact nomatch h
  exact staticAnswer_sendStaticFile h

theorem staticAnswer_response
    (h : s.trySendStaticResponse streamId method path = some s') : StaticAnswer s s' := by
  unfold trySendStaticResponse at h
  split at h
  · exact nomatch h
  split at h
  · exact nomatch h
  dsimp only at h
  split at h
  · injection h with h
    subst h
    exact .append s fun item hitem => by rw [List.mem_singleton.1 hitem]; nofun
  injection h with h
  subst h
  refine .append s fun item hitem => ?_
  rcases List.mem_cons.1 hitem with rfl | hitem
  · nofun
  rw [List.mem_singleton.1 hitem]
  nofun

theorem staticAnswer_target
    (h : s.tryStaticTarget files withFiles streamId target = some s') : StaticAnswer s s' := by
  unfold tryStaticTarget at h
  split at h
  · next hresponse => exact Option.some.inj h ▸ staticAnswer_response hresponse
  split at h
  · exact staticAnswer_file h
  exact nomatch h

/-! ## What the handlers do besides -/

/-- The relation holds of an answer with a file. -/
def Files (R : Http2StreamManager → Http2StreamManager → Prop) : Prop :=
  ∀ {s s' files streamId method path ifNoneMatch range},
    s.trySendStaticFile files streamId method path ifNoneMatch range = some s' → R s s'

/-- The relation holds of what collects and decodes header blocks. -/
structure Blocks (R : Http2StreamManager → Http2StreamManager → Prop) : Prop where
  block : ∀ {f : Http2Stream → Http2Stream} s streamId,
    (∀ stream, { (f stream).core with headerBlock := stream.headerBlock } = stream.core) →
    R s (s.modifyStream streamId f)
  decoder : ∀ s decoder, R s (s.setDecoder decoder)
  expecting : ∀ s expecting streamId, R s (s.setExpectingContinuation expecting streamId)

variable (R : Http2StreamManager → Http2StreamManager → Prop)

/-- The relation holds of the static answer to a request that opens no stream. -/
def Targets (s : Http2StreamManager)
    (files : StaticFiles) (streamId : UInt32) (payload : Bytes) : Prop :=
  ∀ {withFiles target s'}, (s.conn.decoder.decodeRequestTarget payload).1 = .ok target →
    (s.setDecoder (s.conn.decoder.decodeRequestTarget payload).2).tryStaticTarget files withFiles
      streamId target = some s' →
    R (s.setDecoder (s.conn.decoder.decodeRequestTarget payload).2) s'

/-- The relation holds of a new stream. -/
def Creates : Prop :=
  ∀ s streamId, R s (s.createStream streamId)

variable {R}

/-- The relation holds of what received DATA changes. -/
structure Receives (R : Http2StreamManager → Http2StreamManager → Prop) : Prop where
  stream : ∀ s streamId delta, R s (s.modifyStream streamId (·.adjustRecvWindow delta))
  conn : ∀ s delta, R s (s.adjustConnRecvWindow delta)
  update : ∀ s streamId increment, R s (s.enqueueWindowUpdateAction streamId increment)

/-- The relation holds of a change of the window of a stream. -/
def Adjusts (R : Http2StreamManager → Http2StreamManager → Prop) : Prop :=
  ∀ s streamId delta, R s (s.modifyStream streamId (·.adjustSendWindow delta))

namespace Quiet

variable {R : Http2StreamManager → Http2StreamManager → Prop} (H : Quiet R)
include H

theorem trySendStreamStaticResponse
    (h : s.trySendStreamStaticResponse streamId = some s') : R s s' := by
  unfold Http2StreamManager.trySendStreamStaticResponse at h
  split at h
  · exact nomatch h
  split at h
  · exact nomatch h
  split at h
  · exact nomatch h
  split at h
  · exact nomatch h
  dsimp only at h
  split at h
  · injection h with h
    exact h ▸ H.onStream s streamId fun stream io =>
      stream.sendEncodedHeadersInternal_sends _ _ _ io
  injection h with h
  exact h ▸ H.onStream s streamId fun stream io =>
    stream.sendEncodedHeadersAndDataInternal_sends _ _ _ io

theorem trySendStreamStaticFile (hfile : Files R)
    (h : s.trySendStreamStaticFile files streamId = some s') : R s s' := by
  unfold Http2StreamManager.trySendStreamStaticFile at h
  split at h
  · exact nomatch h
  split at h
  · exact nomatch h
  exact hfile h

theorem deliverRequest (s : Http2StreamManager) (streamId : UInt32) (endStream : Bool) :
    R s (s.deliverRequest streamId endStream) := by
  unfold Http2StreamManager.deliverRequest
  dsimp only
  split
  · exact H.refl s
  split
  · split
    · exact H.modifyStream s streamId fun _ => rfl
    exact H.markStreamActive s streamId _
  exact H.queueStreamHandler s streamId

theorem completeDecodedHeaders (hfile : Files R) (s : Http2StreamManager) (files : StaticFiles)
    (streamId : UInt32) (endStream : Bool) :
    R s (s.completeDecodedHeaders files streamId endStream) := by
  unfold Http2StreamManager.completeDecodedHeaders
  split
  · refine H.trans (H.modifyStream s streamId fun stream => ?_) (H.markStreamActive _ streamId _)
    split <;> rfl
  have hconsume := H.modifyStream s streamId fun stream =>
    (by dsimp only; split <;> rfl : (let stream := stream.consumeDecodedHeadersAsRequest
      if endStream then stream.markRequestCompleted else stream).core = stream.core)
  dsimp only at hconsume ⊢
  split
  · next h => exact H.trans hconsume (H.trySendStreamStaticResponse h)
  split
  · next h => exact H.trans hconsume (H.trySendStreamStaticFile hfile h)
  exact H.trans hconsume (H.deliverRequest _ streamId endStream)

theorem decodeBufferedHeaders (hblocks : Blocks R) (s : Http2StreamManager) (streamId : UInt32) :
    R s (s.decodeBufferedHeaders streamId) := by
  unfold Http2StreamManager.decodeBufferedHeaders
  split
  · exact H.refl s
  next stream _ =>
  have hdecoder := hblocks.decoder s (s.conn.decoder.decode stream.headerBlock).2
  dsimp only
  refine H.trans ?_ (hblocks.expecting _ _ _)
  refine H.trans ?_ (hblocks.block (f := Http2Stream.clearHeaderBlock) _ streamId fun _ => rfl)
  split
  · next fields _ =>
    exact H.trans hdecoder
      (H.modifyStream (f := Http2Stream.setDecodedHeaders fields) _ streamId fun _ => rfl)
  exact hdecoder

theorem completeReceivedHeaders (hfile : Files R) (hblocks : Blocks R) (s : Http2StreamManager)
    (files : StaticFiles) (streamId : UInt32) (endStream : Bool) :
    R s (s.completeReceivedHeaders files streamId endStream) :=
  H.trans (H.decodeBufferedHeaders hblocks s streamId)
    (H.completeDecodedHeaders hfile _ files streamId endStream)

theorem receiveHeaders (hfile : Files R) (hblocks : Blocks R) (s : Http2StreamManager)
    (files : StaticFiles) (streamId : UInt32) (headerBlock : Bytes) (endStream endHeaders : Bool) :
    R s (s.receiveHeaders files streamId headerBlock endStream endHeaders) := by
  unfold Http2StreamManager.receiveHeaders
  have hrecv := H.onStream s streamId fun stream io =>
    ⟨[], (stream.onHeadersReceived_sends endStream io).toSends⟩
  have happend := H.trans hrecv (hblocks.block _ streamId fun stream =>
    (rfl : { (stream.appendHeaderBlock headerBlock).core with headerBlock := stream.headerBlock } =
      stream.core))
  dsimp only
  split
  · exact H.trans happend (H.completeReceivedHeaders hfile hblocks _ files streamId endStream)
  exact H.trans happend (hblocks.expecting _ _ _)

theorem receiveContinuation (hfile : Files R) (hblocks : Blocks R) (s : Http2StreamManager)
    (files : StaticFiles) (streamId : UInt32) (headerBlock : Bytes) (endHeaders endStream : Bool) :
    R s (s.receiveContinuation files streamId headerBlock endHeaders endStream) := by
  unfold Http2StreamManager.receiveContinuation
  have happend := hblocks.block s streamId fun stream =>
    (rfl : { (stream.appendHeaderBlock headerBlock).core with headerBlock := stream.headerBlock } =
      stream.core)
  dsimp only
  split
  · exact H.trans happend (H.completeReceivedHeaders hfile hblocks _ files streamId endStream)
  exact happend

theorem createStreamInternal (hcreate : Creates R) (s : Http2StreamManager) (streamId : UInt32) :
    R s (s.createStreamInternal streamId) :=
  H.trans (H.drainRetiredStreams s) (H.trans (hcreate _ streamId)
    (H.trans (H.attachStreamIo _ streamId) (H.rememberHotStream _ streamId)))

theorem allocateStream (hcreate : Creates R) (s : Http2StreamManager) : R s s.allocateStream := by
  have hnext : Idle s { s with nextLocalStreamId := s.nextLocalStreamId + 2 } := by
    constructor <;> rfl
  refine H.trans (H.idle hnext) ?_
  unfold Http2StreamManager.allocateStream newStream
  split
  · exact H.attachStreamIo _ _
  exact H.createStreamInternal hcreate _ _

variable (s)

theorem finishHandler (streamId : UInt32) (started : Bool) :
    R s (s.step (.finishHandler streamId started)) := by
  refine H.trans ?_ (H.enqueueRetireStream _ streamId)
  split
  · exact H.refl s
  exact H.modifyStream s streamId fun stream => stream.closeFrameQueue_core

theorem openStream (hcreate : Creates R) (s : Http2StreamManager) (streamId : UInt32) :
    R s ((s.createStreamInternal streamId).setLastPeerStreamId streamId) :=
  H.trans (H.createStreamInternal hcreate s streamId) (H.setLastPeerStreamId _ streamId)

theorem openDecodedStream (hfile : Files R) (hcreate : Creates R) (s : Http2StreamManager)
    (files : StaticFiles) (streamId : UInt32) (fields : List Http2HeaderField) (endStream : Bool) :
    R s (s.openDecodedStream files streamId fields endStream) := by
  refine H.trans (H.openStream hcreate s streamId) ?_
  refine H.trans (H.onStream _ streamId fun stream io =>
    ⟨[], (stream.onHeadersReceived_sends endStream io).toSends⟩) ?_
  refine H.trans (H.modifyStream (f := Http2Stream.setDecodedHeaders fields) _ streamId
    fun _ => rfl) ?_
  exact H.trans (H.completeDecodedHeaders hfile _ files streamId endStream)
    (H.tryRetireClientStream _ streamId)

theorem applyRecvWindowUpdate (hrecv : Receives R) (s : Http2StreamManager) (streamId : UInt32)
    (dataSize : Nat) : R s (s.applyRecvWindowUpdate streamId dataSize) := by
  unfold Http2StreamManager.applyRecvWindowUpdate
  split
  · exact H.refl s
  next stream _ =>
  have hconn : R s (if (s.conn.evaluateRecvWindowUpdate stream.recvWindow dataSize).connIncrement > 0
      then (s.enqueueWindowUpdateAction 0
        (s.conn.evaluateRecvWindowUpdate stream.recvWindow dataSize).connIncrement
        ).adjustConnRecvWindow
        (s.conn.evaluateRecvWindowUpdate stream.recvWindow dataSize).connIncrement.toInt32
      else s) := by
    split
    · exact H.trans (hrecv.update _ _ _) (hrecv.conn _ _)
    exact H.refl s
  dsimp only
  split
  · exact H.trans hconn (H.trans (hrecv.update _ _ _) (hrecv.stream _ _ _))
  exact hconn

theorem appendStreamDataAndMarkEvents (s : Http2StreamManager) (streamId : UInt32) (data : Bytes)
    (endStream : Bool) : R s (s.appendStreamDataAndMarkEvents streamId data endStream) := by
  unfold Http2StreamManager.appendStreamDataAndMarkEvents
  split
  · refine H.trans (H.modifyStream s streamId fun stream => ?_) (H.markStreamActive _ streamId _)
    split <;> rfl
  refine H.trans (H.modifyStream s streamId fun stream => ?_) (H.markStreamActive _ streamId _)
  have hcore : (stream.appendRequestData data).core = stream.core := rfl
  split <;> exact hcore

theorem receiveData (hrecv : Receives R) (s : Http2StreamManager) (streamId : UInt32) (data : Bytes)
    (endStream : Bool) : R s (s.receiveData streamId data endStream) := by
  refine H.trans (H.onStream s streamId fun stream io =>
    ⟨[], (stream.onDataReceived_sends endStream io).toSends⟩) ?_
  refine H.trans (hrecv.conn _ (-Int32.ofNat data.length)) ?_
  refine H.trans (hrecv.stream _ streamId (-Int32.ofNat data.length)) ?_
  exact H.trans (H.applyRecvWindowUpdate hrecv _ streamId data.length)
    (H.appendStreamDataAndMarkEvents _ streamId data endStream)

theorem handlePriorityFrame (frame : Http2PriorityFrame)
    (streamId : UInt32) : R s (s.handlePriorityFrame frame streamId) :=
  H.trans (H.findAttachedStream s streamId) (H.modifyStream (f := Http2Stream.setPriority
    frame.exclusive frame.streamDependency frame.weight) _ streamId fun _ => rfl)

variable {s}

omit H in
theorem refreshStream_eq (delta : Int32) (s : Http2StreamManager) (streamId : UInt32) :
    s.refreshStream delta streamId =
      (s.modifyStream streamId (·.adjustSendWindow delta)).onStream streamId fun stream io =>
        (stream.setLimits s.conn.peerSettings.maxFrameSize
          s.conn.peerSettings.maxHeaderListSize).flushPendingData io := by
  refine Eq.symm (onStream_onStream (fun _ _ => rfl) fun stream io => ?_)
  obtain ⟨out, h⟩ := Http2Stream.flush_of_core io (rfl : (stream.setLimits
    s.conn.peerSettings.maxFrameSize s.conn.peerSettings.maxHeaderListSize).core = stream.core)
  exact h.streamId

theorem refreshStream (hadjust : Adjusts R) (delta : Int32) (s : Http2StreamManager)
    (streamId : UInt32) : R s (s.refreshStream delta streamId) := by
  rw [refreshStream_eq]
  exact H.trans (hadjust s streamId delta) (H.onStream _ streamId fun stream io =>
    Http2Stream.flush_of_core io rfl)

theorem refreshStreams (hadjust : Adjusts R) (s : Http2StreamManager) (delta : Int32) :
    R s (s.refreshStreams delta) :=
  H.foldl (fun s streamId => H.refreshStream hadjust delta s streamId) s _

end Quiet

namespace Closed

variable {R : Http2StreamManager → Http2StreamManager → Prop} (H : Closed R)
include H

section

variable (hfile : Files R) (hblocks : Blocks R)
include hfile hblocks

theorem receiveRawHeaders (s : Http2StreamManager) (files : StaticFiles) (streamId : UInt32)
    (view : Http2RawFrameView) :
    R s (s.receiveRawHeaders files streamId view) := by
  unfold Http2StreamManager.receiveRawHeaders
  split
  · exact H.refl s
  split
  · exact H.enqueueRstStreamAction s streamId _
  exact H.trans (H.receiveHeaders hfile hblocks s files streamId _ _ _)
    (H.tryRetireClientStream _ streamId)

theorem decodeAndOpen (hcreate : Creates R) (s : Http2StreamManager) (files : StaticFiles)
    (streamId : UInt32) (payload : Bytes) (endStream : Bool) :
    R s (s.decodeAndOpen files streamId payload endStream) := by
  unfold Http2StreamManager.decodeAndOpen
  split
  · exact H.trans (hblocks.decoder s _) (H.enqueueGoawayAction _ _)
  exact H.trans (hblocks.decoder s _) (H.openDecodedStream hfile hcreate _ files streamId _ _)

variable {files : StaticFiles}

theorem answerStaticOrOpen (hcreate : Creates R)
    (htargets : Targets R s files streamId payload) (withFiles endStream : Bool) :
    R s (s.answerStaticOrOpen files withFiles streamId payload endStream) := by
  unfold Http2StreamManager.answerStaticOrOpen
  split
  · exact H.trans (hblocks.decoder s _) (H.enqueueGoawayAction _ _)
  next target decoder htarget =>
  have hdecoder : (s.conn.decoder.decodeRequestTarget payload).2 = decoder := by rw [htarget]
  have hok : (s.conn.decoder.decodeRequestTarget payload).1 = .ok target := by rw [htarget]
  split
  · next s' hsome =>
    rw [← hdecoder] at hsome
    exact H.trans (hblocks.decoder s _)
      (H.trans (htargets hok hsome) (H.setLastPeerStreamId s' streamId))
  exact H.decodeAndOpen hfile hblocks hcreate s files streamId payload endStream

theorem openRawStream (hcreate : Creates R)
    (htargets : Targets R s files streamId payload) (endStream : Bool) :
    R s (s.openRawStream files streamId payload endStream) := by
  unfold Http2StreamManager.openRawStream
  split
  · exact H.answerStaticOrOpen hfile hblocks hcreate htargets _ _
  split
  · exact H.answerStaticOrOpen hfile hblocks hcreate htargets _ _
  exact H.decodeAndOpen hfile hblocks hcreate s files streamId payload endStream

theorem handleRawHeadersFrameView (hcreate : Creates R)
    (htargets : Targets R (s.findAttachedStream streamId) files streamId view.payload)
    (h : s.handleRawHeadersFrameView files view streamId = some s') : R s s' := by
  unfold Http2StreamManager.handleRawHeadersFrameView at h
  have hfind := H.findAttachedStream s streamId
  split at h
  · exact nomatch h
  dsimp only at h
  split at h
  · injection h with h
    exact h ▸ H.trans hfind (H.receiveRawHeaders hfile hblocks _ files streamId view)
  split at h
  · injection h with h
    exact h ▸ H.trans hfind (H.enqueueRstStreamAction _ streamId _)
  split at h
  · injection h with h
    exact h ▸ H.trans hfind (H.enqueueGoawayAction _ _)
  split at h
  · injection h with h
    exact h ▸ H.trans hfind (H.enqueueRstStreamAction _ streamId _)
  split at h
  · injection h with h
    exact h ▸ H.trans hfind (H.openRawStream hfile hblocks hcreate htargets _)
  injection h with h
  exact h ▸ H.trans hfind (H.trans (H.openStream hcreate _ streamId)
    (H.receiveRawHeaders hfile hblocks _ files streamId view))

theorem handleRawContinuationFrameView (s : Http2StreamManager) (files : StaticFiles)
    (view : Http2RawFrameView) (streamId : UInt32) :
    R s (s.handleRawContinuationFrameView files view streamId) := by
  unfold Http2StreamManager.handleRawContinuationFrameView
  dsimp only
  refine H.trans (H.findAttachedStream s streamId) ?_
  split
  · exact H.enqueueGoawayAction _ _
  exact H.receiveContinuation hfile hblocks _ files streamId _ _ _

end

theorem findOrCreateHeadersStream (hcreate : Creates R) (s : Http2StreamManager)
    (streamId : UInt32) : R s (s.findOrCreateHeadersStream streamId) := by
  unfold Http2StreamManager.findOrCreateHeadersStream
  dsimp only
  refine H.trans (H.findAttachedStream s streamId) ?_
  split
  · exact H.refl _
  split
  · exact H.enqueueGoawayAction _ _
  split
  · exact H.enqueueRstStreamAction _ streamId _
  split
  · exact H.enqueueGoawayAction _ _
  split
  · exact H.enqueueRstStreamAction _ streamId _
  exact H.openStream hcreate _ streamId

section

variable (hfile : Files R) (hblocks : Blocks R)
include hfile hblocks

theorem receiveParsedHeaders (s : Http2StreamManager) (files : StaticFiles)
    (frame : Http2HeadersFrame) (streamId : UInt32) :
    R s (s.receiveParsedHeaders files frame streamId) := by
  unfold Http2StreamManager.receiveParsedHeaders
  split
  · exact H.refl _
  split
  · exact H.enqueueRstStreamAction _ streamId _
  dsimp only
  refine H.trans ?_ (H.tryRetireClientStream _ streamId)
  refine H.trans ?_ (H.pushStreamFrameIfNeeded _ streamId _)
  refine H.trans ?_ (H.receiveHeaders hfile hblocks _ files streamId _ _ _)
  split
  · exact H.modifyStream (f := Http2Stream.setPriority frame.exclusive frame.streamDependency
      frame.weight) _ streamId fun _ => rfl
  exact H.refl _

theorem handleHeadersFrame (hcreate : Creates R) (s : Http2StreamManager) (files : StaticFiles)
    (frame : Http2HeadersFrame) (streamId : UInt32) :
    R s (s.handleHeadersFrame files frame streamId) :=
  H.trans (H.findOrCreateHeadersStream hcreate s streamId)
    (H.receiveParsedHeaders hfile hblocks _ files frame streamId)

theorem handleContinuationFrame (s : Http2StreamManager) (files : StaticFiles)
    (frame : Http2ContinuationFrame) (streamId : UInt32) :
    R s (s.handleContinuationFrame files frame streamId) := by
  unfold Http2StreamManager.handleContinuationFrame
  dsimp only
  refine H.trans (H.findAttachedStream s streamId) ?_
  split
  · exact H.enqueueGoawayAction _ _
  exact H.trans (H.receiveContinuation hfile hblocks _ files streamId _ _ _)
    (H.pushStreamFrameIfNeeded _ streamId _)

end

theorem handleRawDataFrameView (hrecv : Receives R)
    (h : s.handleRawDataFrameView view streamId = some s') : R s s' := by
  unfold Http2StreamManager.handleRawDataFrameView at h
  have hfind := H.findAttachedStream s streamId
  split at h
  · exact nomatch h
  split at h
  · injection h with h
    exact h ▸ H.enqueueGoawayAction s _
  dsimp only at h
  split at h
  · injection h with h
    exact h ▸ H.trans hfind (H.enqueueRstStreamAction _ streamId _)
  split at h
  · injection h with h
    exact h ▸ H.trans hfind (H.enqueueRstStreamAction _ streamId _)
  split at h
  · injection h with h
    exact h ▸ H.trans hfind (H.enqueueGoawayAction _ _)
  split at h
  · injection h with h
    exact h ▸ H.trans hfind (H.enqueueRstStreamAction _ streamId _)
  injection h with h
  exact h ▸ H.trans hfind (H.trans (H.receiveData hrecv _ streamId _ _)
    (H.tryRetireClientStream _ streamId))

theorem handleDataFrame (hrecv : Receives R) (s : Http2StreamManager) (frame : Http2DataFrame)
    (streamId : UInt32) : R s (s.handleDataFrame frame streamId) := by
  unfold Http2StreamManager.handleDataFrame
  split
  · exact H.enqueueGoawayAction s _
  dsimp only
  refine H.trans (H.findAttachedStream s streamId) ?_
  split
  · exact H.enqueueRstStreamAction _ streamId _
  split
  · exact H.enqueueRstStreamAction _ streamId _
  split
  · exact H.enqueueGoawayAction _ _
  split
  · exact H.enqueueRstStreamAction _ streamId _
  exact H.trans (H.receiveData hrecv _ streamId _ _)
    (H.trans (H.pushStreamFrameIfNeeded _ streamId _) (H.tryRetireClientStream _ streamId))

theorem handleRstStreamFrame (s : Http2StreamManager) (frame : Http2RstStreamFrame)
    (streamId : UInt32) : R s (s.handleRstStreamFrame frame streamId) := by
  unfold Http2StreamManager.handleRstStreamFrame
  split
  · exact H.enqueueGoawayAction s _
  refine H.trans (H.findAttachedStream s streamId) ?_
  refine H.trans (H.onStream _ streamId fun stream io =>
    ⟨[], (stream.onRstStreamReceived_sends io).toSends⟩) ?_
  refine H.trans (H.markStreamActive _ streamId Http2StreamEvent.Reset) ?_
  refine H.trans (H.pushStreamFrameIfNeeded _ streamId (.rstStream frame)) ?_
  exact H.trans (H.modifyStream (f := fun stream =>
    stream.markRequestCompleted.markResponseCompleted.closeFrameQueue) _ streamId
    fun stream => Http2Stream.closeFrameQueue_core _) (H.tryRetireClientStream _ streamId)

theorem handlePushPromiseFrame (hcreate : Creates R) (s : Http2StreamManager)
    (frame : Http2PushPromiseFrame) : R s (s.handlePushPromiseFrame frame) := by
  unfold Http2StreamManager.handlePushPromiseFrame
  split
  · exact H.enqueueGoawayAction s _
  refine H.trans (H.findAttachedStream s frame.promisedStreamId) ?_
  have hpromised := fun s : Http2StreamManager =>
    H.trans (H.createStreamInternal hcreate s frame.promisedStreamId)
      (H.modifyStream (f := fun stream => { stream with state := .ReservedRemote }) _
        frame.promisedStreamId fun _ => rfl)
  dsimp only
  split
  · refine H.trans (H.pushStreamFrameIfNeeded _ frame.promisedStreamId (.pushPromise frame)) ?_
    split
    · exact H.refl _
    exact H.queueStreamHandler _ _
  refine H.trans (hpromised _) ?_
  refine H.trans (H.pushStreamFrameIfNeeded _ frame.promisedStreamId (.pushPromise frame)) ?_
  split
  · exact H.refl _
  exact H.queueStreamHandler _ _

theorem handleWindowUpdateFrame (hadjust : Adjusts R) (s : Http2StreamManager)
    (frame : Http2WindowUpdateFrame) (streamId : UInt32) :
    R s (s.handleWindowUpdateFrame frame streamId) := by
  unfold Http2StreamManager.handleWindowUpdateFrame
  refine H.trans (H.findAttachedStream s streamId) ?_
  dsimp only
  split
  · exact H.refl _
  split
  · exact H.enqueueRstStreamAction _ streamId _
  split
  · exact H.enqueueRstStreamAction _ streamId _
  exact H.trans (H.refreshStream hadjust _ _ streamId)
    (H.trans (H.markStreamActive _ streamId _) (H.pushStreamFrameIfNeeded _ streamId _))

theorem handlePingFrame (s : Http2StreamManager) (frame : Http2PingFrame) :
    R s (s.handlePingFrame frame) := by
  unfold Http2StreamManager.handlePingFrame
  split
  · exact H.enqueueGoawayAction s _
  split
  · exact H.enqueueSendFrame s nofun nofun
  split
  · exact H.idle (by constructor <;> rfl)
  exact H.refl s

theorem handleGoAwayFrame (s : Http2StreamManager) (frame : Http2GoAwayFrame) :
    R s (s.handleGoAwayFrame frame) := by
  unfold Http2StreamManager.handleGoAwayFrame
  have hmark : Idle s { s with
      rejectNewStreams := true
      conn := s.conn.markGoawayReceived frame.lastStreamId frame.errorCode frame.debugData } := by
    constructor <;> rfl
  refine H.trans (H.idle hmark) ?_
  dsimp only
  split
  · refine H.mapStreams _ fun stream => ?_
    split
    · rfl
    exact stream.closeFrameQueue_core
  exact H.refl _

theorem handleSettingsFrame (hadjust : Adjusts R)
    (hsettings : ∀ s settings, R s (s.applyPeerSettings settings)) (s : Http2StreamManager)
    (frame : Http2SettingsFrame) : R s (s.handleSettingsFrame frame) := by
  unfold Http2StreamManager.handleSettingsFrame
  dsimp only
  split
  · exact H.enqueueGoawayAction s _
  split
  · exact H.idle (by constructor <;> rfl)
  split
  · exact H.enqueueGoawayAction s _
  split
  · exact H.enqueueGoawayAction s _
  exact H.trans (hsettings s _) (H.trans (H.refreshStreams hadjust _ _)
    (H.enqueueSendFrame _ nofun nofun))

theorem handleConnectionWindowUpdate (hadjust : Adjusts R)
    (hwin : ∀ s window, R s { s with io := { s.io with connSendWindow := window } })
    (s : Http2StreamManager) (frame : Http2WindowUpdateFrame) :
    R s (s.handleConnectionWindowUpdate frame) := by
  unfold Http2StreamManager.handleConnectionWindowUpdate
  dsimp only
  split
  · exact H.enqueueGoawayAction s _
  split
  · exact H.enqueueGoawayAction s _
  exact H.trans (hwin s _) (H.refreshStreams hadjust _ _)

theorem handleConnectionFrame (hadjust : Adjusts R)
    (hsettings : ∀ s settings, R s (s.applyPeerSettings settings))
    (hwin : ∀ s window, R s { s with io := { s.io with connSendWindow := window } })
    (s : Http2StreamManager) (frame : Http2Frame) : R s (s.handleConnectionFrame frame) := by
  cases frame with
  | settings frame => exact H.handleSettingsFrame hadjust hsettings s frame
  | ping frame => exact H.handlePingFrame s frame
  | goAway frame => exact H.handleGoAwayFrame s frame
  | windowUpdate frame => exact H.handleConnectionWindowUpdate hadjust hwin s frame
  | _ => exact H.refl s

end Closed

/-! ## New streams -/

section

variable (h : s.conn.getStream streamId = none)

include h

theorem getStream_removeStream_none (other : UInt32) :
    (s.removeStream other).conn.getStream streamId = none := by
  unfold removeStream
  simp only [Http2Conn.getStream, find?_eq_none] at h ⊢
  exact fun stream hstream => h stream (mem_of_mem_filter hstream)

theorem getStream_drainRetiredStreams_none :
    s.drainRetiredStreams.conn.getStream streamId = none := by
  unfold drainRetiredStreams
  have hstart : ({ s with io := { s.io with retireStreamChannel := [] } } : Http2StreamManager
      ).conn.getStream streamId = none := h
  generalize ({ s with io := { s.io with retireStreamChannel := [] } } : Http2StreamManager) = t
    at hstart ⊢
  induction s.io.retireStreamChannel generalizing t with
  | nil => exact hstart
  | cons other ids ih =>
  refine ih _ (getStream_removeStream_none ?_ other)
  unfold clearHotStream
  split
  · exact hstart
  exact hstart

theorem getStream_createStream :
    (s.createStream streamId).conn.getStream streamId = some (.create streamId) := by
  have hstream : (if s.activeConnMode && !s.conn.isClient then s.streamPool.acquire streamId
      else (.create streamId, s.streamPool)).1 = .create streamId := by
    split
    · exact s.streamPool.acquire_stream streamId
    rfl
  unfold createStream
  simp only [h, Option.isSome_none, Bool.false_eq_true, if_false, hstream]
  have hfind : s.conn.streams.find? (·.streamId = streamId) = none := h
  simp [Http2Conn.getStream, find?_append, hfind, Http2Stream.create]

end

theorem conn_rememberHotStream (s : Http2StreamManager) (streamId : UInt32) :
    (s.rememberHotStream streamId).conn = s.conn := by
  unfold rememberHotStream
  split <;> rfl

/-- A stream that was made for an identifier that had none. -/
theorem getStream_createStreamInternal (h : s.conn.getStream streamId = none) :
    ∃ stream, (s.createStreamInternal streamId).conn.getStream streamId = some stream ∧
      stream.state = .Idle ∧ stream.headerBlock = [] ∧ stream.sendWindow = 65535 := by
  have hcreate := getStream_createStream (getStream_drainRetiredStreams_none h)
  unfold createStreamInternal
  rw [conn_rememberHotStream, attachStreamIo, getStream_onStream (attachOp_sending _).keepsId hcreate]
  exact ⟨_, rfl, rfl, rfl, rfl⟩

theorem findAttachedStream_none
    (h : s.conn.getStream streamId = none) : s.findAttachedStream streamId = s := by
  unfold findAttachedStream
  split
  · rfl
  rw [attachStreamIo, onStream_none h, rememberHotStream, h]
  rfl

theorem getStream_findAttachedStream (h : s.conn.getStream streamId = some stream) :
    ∃ stream', (s.findAttachedStream streamId).conn.getStream streamId = some stream' := by
  unfold findAttachedStream
  split
  · exact ⟨stream, h⟩
  rw [conn_rememberHotStream, attachStreamIo, getStream_onStream s.attachOp_sending.keepsId h]
  exact ⟨_, rfl⟩

end Http2StreamManager

end Galay.Http2
