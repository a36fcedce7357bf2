import Galay.Http2.ReaderLemmas

/-!
# The raw path and the parsed path

An active server reads HEADERS, CONTINUATION and DATA from the bytes of the frame; the parsed path
makes a frame object first and is used for everything else. Without static routes and mounts the
two do the same, except on stream `0` and for HEADERS that open a stream when the block cannot be
decoded or a continuation is expected.
-/

namespace Galay.Http2

namespace Http2StreamManager

/-! ## The mode of a connection -/

/-- Neither the role of the endpoint nor the mode of the manager changes. -/
structure SameMode (s s' : Http2StreamManager) : Prop where
  activeConnMode : s'.activeConnMode = s.activeConnMode
  isClient : s'.conn.isClient = s.conn.isClient

theorem SameMode.closed : Closed SameMode where
  refl _ := ⟨rfl, rfl⟩
  trans h h' := ⟨h'.activeConnMode.trans h.activeConnMode, h'.isClient.trans h.isClient⟩
  idle h := ⟨h.activeConnMode, h.isClient⟩
  onStream s streamId _ := by
    unfold onStream
    split <;> exact ⟨rfl, rfl⟩
  mapStreams _ _ := ⟨rfl, rfl⟩
  remove _ _ := ⟨rfl, rfl⟩
  action _ _ := ⟨rfl, rfl⟩
  enqueue _ _ := ⟨rfl, rfl⟩

theorem SameMode.files : Files SameMode := fun h =>
  ⟨(staticAnswer_file h).activeConnMode, congrArg (·.isClient) (staticAnswer_file h).conn⟩

theorem SameMode.modifyStream (s : Http2StreamManager) (streamId : UInt32)
    (f : Http2Stream → Http2Stream) : SameMode s (s.modifyStream streamId f) := by
  unfold Http2StreamManager.modifyStream onStream
  split <;> exact ⟨rfl, rfl⟩

theorem SameMode.creates : Creates SameMode := by
  intro s streamId
  unfold createStream
  dsimp only
  split <;> exact ⟨rfl, rfl⟩

theorem SameMode.blocks : Blocks SameMode where
  block s streamId _ := SameMode.modifyStream s streamId _
  decoder _ _ := ⟨rfl, rfl⟩
  expecting _ _ _ := ⟨rfl, rfl⟩

theorem SameMode.receives : Receives SameMode where
  stream s streamId _ := SameMode.modifyStream s streamId _
  conn _ _ := ⟨rfl, rfl⟩
  update _ _ _ := ⟨rfl, rfl⟩

theorem pushStreamFrameIfNeeded_of_active {s : Http2StreamManager} (h : s.activeConnMode = true)
    (streamId : UInt32) (frame : Http2Frame) : s.pushStreamFrameIfNeeded streamId frame = s := by
  simp [pushStreamFrameIfNeeded, h]

/-! ## The frame objects -/

section Views
variable {view : Http2RawFrameView}

theorem materialize_headers (hview : view.isHeaders = true) (hpadded : view.header.isPadded = false)
    (hprio : view.header.hasPriority = false) :
    materializeFrameView view =
      .ok (.headers { header := view.header, headerBlock := view.payload }) := by
  have htype : view.header.type = .Headers := by simpa [Http2RawFrameView.isHeaders] using hview
  rw [materializeFrameView_eq, Http2FrameParser.parsePayload, htype]
  simp [Http2HeadersFrame.parsePayload, readPadLength, Http2HeadersFrame.parsePriority, dropPadding,
    hpadded, hprio, Except.map]

theorem materialize_continuation (hview : view.isContinuation = true) :
    materializeFrameView view =
      .ok (.continuation { header := view.header, headerBlock := view.payload }) := by
  have htype : view.header.type = .Continuation := by
    simpa [Http2RawFrameView.isContinuation] using hview
  rw [materializeFrameView_eq, Http2FrameParser.parsePayload, htype]
  rfl

theorem materialize_data (hview : view.isData = true) (hpadded : view.header.isPadded = false) :
    materializeFrameView view = .ok (.data { header := view.header, data := view.payload }) := by
  have htype : view.header.type = .Data := by simpa [Http2RawFrameView.isData] using hview
  rw [materializeFrameView_eq, Http2FrameParser.parsePayload, htype]
  simp [Http2DataFrame.parsePayload, hpadded, Except.map]

end Views

/-! ## Equal handlers -/

/-- A HEADERS frame for this identifier opens a new stream. -/
structure OpensStream (s : Http2StreamManager) (streamId : UInt32) : Prop where
  absent : s.conn.getStream streamId = none
  accepted : s.refusesStreams = false
  newer : s.conn.lastPeerStreamId < streamId
  room : s.concurrencyReached = false

section Active
variable {s : Http2StreamManager} (hact : s.activeConnMode = true)
  (hserver : s.conn.isClient = false)
include hact

theorem handleContinuationFrame_eq_raw (files : StaticFiles) (view : Http2RawFrameView)
    (streamId : UInt32) :
    s.handleContinuationFrame files { header := view.header, headerBlock := view.payload } streamId =
      s.handleRawContinuationFrameView files view streamId := by
  unfold handleContinuationFrame handleRawContinuationFrameView
  dsimp only
  split
  · rfl
  next stream _ =>
  refine pushStreamFrameIfNeeded_of_active ?_ _ _
  have hmode := SameMode.closed.trans (SameMode.closed.findAttachedStream s streamId)
    (SameMode.closed.receiveContinuation SameMode.files SameMode.blocks _ files streamId
      view.payload view.header.isEndHeaders stream.endStreamReceived)
  exact hmode.activeConnMode.trans hact

theorem handleDataFrame_eq_raw (hpadded : view.header.isPadded = false) (streamId : UInt32) :
    s.handleRawDataFrameView view streamId =
      some (s.handleDataFrame { header := view.header, data := view.payload } streamId) := by
  unfold handleDataFrame handleRawDataFrameView
  rw [hpadded]
  dsimp only
  have hpush : ((s.findAttachedStream streamId).receiveData streamId view.payload
      view.header.isEndStream).pushStreamFrameIfNeeded streamId
        (.data { header := view.header, data := view.payload }) =
      (s.findAttachedStream streamId).receiveData streamId view.payload view.endStream := by
    refine pushStreamFrameIfNeeded_of_active ?_ _ _
    have hmode := SameMode.closed.trans (SameMode.closed.findAttachedStream s streamId)
      (SameMode.closed.receiveData SameMode.receives _ streamId view.payload
        view.header.isEndStream)
    exact hmode.activeConnMode.trans hact
  rw [hpush]
  repeat' split
  all_goals first | rfl | contradiction

omit hact in
theorem receiveParsedHeaders_eq_raw (hmode : s.activeConnMode = true)
    (hprio : view.header.hasPriority = false) (files : StaticFiles) (streamId : UInt32) :
    s.receiveParsedHeaders files { header := view.header, headerBlock := view.payload } streamId =
      s.receiveRawHeaders files streamId view := by
  unfold receiveRawHeaders receiveParsedHeaders
  split
  · rfl
  split
  · rfl
  dsimp only
  rw [hprio, if_neg (by simp), pushStreamFrameIfNeeded_of_active]
  · rfl
  have hreceive := SameMode.closed.receiveHeaders SameMode.files SameMode.blocks s files streamId
    view.payload view.header.isEndStream view.header.isEndHeaders
  exact hreceive.activeConnMode.trans hmode

theorem handleHeadersFrame_eq_raw (hserver : s.conn.isClient = false)
    (hpadded : view.header.isPadded = false) (hprio : view.header.hasPriority = false)
    (hopens : ¬ (s.OpensStream streamId ∧ view.endHeaders = true)) (files : StaticFiles) :
    s.handleRawHeadersFrameView files view streamId = some (s.handleHeadersFrame files
      { header := view.header, headerBlock := view.payload } streamId) := by
  have hfind := SameMode.closed.findAttachedStream s streamId
  unfold handleHeadersFrame handleRawHeadersFrameView findOrCreateHeadersStream
  rw [hpadded, hprio]
  dsimp only
  cases hstream : s.conn.getStream streamId with
  | some stream =>
    obtain ⟨stream', hstream'⟩ := getStream_findAttachedStream hstream
    rw [hstream', Option.isSome_some, if_pos rfl,
      receiveParsedHeaders_eq_raw (hfind.activeConnMode.trans hact) hprio files streamId]
    rfl
  | none =>
  have hparsed : ∀ t : Http2StreamManager, t.conn.getStream streamId = none →
      t.receiveParsedHeaders files { header := view.header, headerBlock := view.payload }
        streamId = t := fun t ht => by rw [receiveParsedHeaders, ht]
  rw [findAttachedStream_none hstream, hstream, hserver]
  dsimp only
  cases hrefuses : s.refusesStreams with
  | true =>
    exact congrArg some (hparsed (s.enqueueRstStreamAction streamId .RefusedStream) hstream).symm
  | false =>
  by_cases hlast : streamId ≤ s.conn.lastPeerStreamId
  · simp only [hlast, if_true]
    exact congrArg some (hparsed (s.enqueueGoawayAction .ProtocolError) hstream).symm
  cases hroom : s.concurrencyReached with
  | true =>
    simp only [hlast, if_false]
    exact congrArg some
      (hparsed (s.enqueueRstStreamAction streamId .RefusedStream) hstream).symm
  | false =>
  have hpartial : view.endHeaders = false := by
    refine Bool.eq_false_iff.2 fun hend => hopens ⟨⟨hstream, hrefuses, ?_, hroom⟩, hend⟩
    exact UInt32.not_le.1 hlast
  have hmode := SameMode.closed.openStream SameMode.creates s streamId
  simp only [hlast, if_false, hpartial]
  exact congrArg some (receiveParsedHeaders_eq_raw
    (hmode.activeConnMode.trans hact) hprio files streamId).symm

end Active

/-! ## Opening a stream -/

section Decoder
variable (decoder : HpackDecoder)

section

variable (s : Http2StreamManager)
include s

variable (streamId : UInt32)

theorem onStream_setDecoder (op : Http2Stream → Http2StreamIo → Http2Stream × Http2StreamIo) :
    (s.setDecoder decoder).onStream streamId op = (s.onStream streamId op).setDecoder decoder := by
  cases h : s.conn.getStream streamId with
  | none => rw [onStream_none h, onStream_none (show (s.setDecoder decoder).conn.getStream _ = _ from h)]
  | some stream =>
  rw [onStream_some h, onStream_some (show (s.setDecoder decoder).conn.getStream _ = _ from h)]
  rfl

theorem drainRetiredStreams_setDecoder :
    (s.setDecoder decoder).drainRetiredStreams = s.drainRetiredStreams.setDecoder decoder := by
  have hone : ∀ (t : Http2StreamManager) (streamId : UInt32),
      ((t.setDecoder decoder).clearHotStream streamId).removeStream streamId =
        ((t.clearHotStream streamId).removeStream streamId).setDecoder decoder := by
    intro t streamId
    unfold clearHotStream
    by_cases h : t.hotStream = some streamId
    · rw [if_pos h, if_pos (show (t.setDecoder decoder).hotStream = some streamId from h)]
      rfl
    rw [if_neg h, if_neg (show ¬ (t.setDecoder decoder).hotStream = some streamId from h)]
    rfl
  have hall : ∀ (ids : List UInt32) (t : Http2StreamManager),
      ids.foldl (fun t streamId => (t.clearHotStream streamId).removeStream streamId)
        (t.setDecoder decoder) =
      (ids.foldl (fun t streamId => (t.clearHotStream streamId).removeStream streamId) t).setDecoder
        decoder := by
    intro ids
    induction ids with
    | nil => exact fun _ => rfl
    | cons streamId ids ih =>
    intro t
    rw [List.foldl_cons, List.foldl_cons, hone, ih]
  exact hall s.io.retireStreamChannel { s with io := { s.io with retireStreamChannel := [] } }

theorem createStream_setDecoder :
    (s.setDecoder decoder).createStream streamId = (s.createStream streamId).setDecoder decoder := by
  unfold createStream
  by_cases h : (s.conn.getStream streamId).isSome
  · simp only [show ((s.setDecoder decoder).conn.getStream streamId).isSome from h, h, if_true]
    rfl
  simp only [show ¬ ((s.setDecoder decoder).conn.getStream streamId).isSome from h, h]
  rfl

theorem createStreamInternal_setDecoder :
    (s.setDecoder decoder).createStreamInternal streamId =
      (s.createStreamInternal streamId).setDecoder decoder := by
  have hhot : ∀ t : Http2StreamManager, (t.setDecoder decoder).rememberHotStream streamId =
      (t.rememberHotStream streamId).setDecoder decoder := by
    intro t
    by_cases h : ((t.conn.getStream streamId).isNone || !t.activeConnMode || t.conn.isClient) = true
    · rw [rememberHotStream, rememberHotStream, if_pos h]
      exact if_pos h
    rw [rememberHotStream, rememberHotStream, if_neg h]
    exact if_neg h
  unfold createStreamInternal
  rw [drainRetiredStreams_setDecoder, createStream_setDecoder, ← hhot]
  exact congrArg (rememberHotStream · streamId) (onStream_setDecoder decoder _ streamId _)

end

end Decoder

/-- Neither the decoder nor the continuation state changes. -/
structure SameHeaders (s s' : Http2StreamManager) : Prop where
  decoder : s'.conn.decoder = s.conn.decoder
  expectingContinuation : s'.conn.expectingContinuation = s.conn.expectingContinuation
  continuationStreamId : s'.conn.continuationStreamId = s.conn.continuationStreamId

theorem SameHeaders.closed : Closed SameHeaders where
  refl _ := ⟨rfl, rfl, rfl⟩
  trans h h' := ⟨h'.decoder.trans h.decoder, h'.expectingContinuation.trans h.expectingContinuation,
    h'.continuationStreamId.trans h.continuationStreamId⟩
  idle h := { h with }
  onStream s streamId _ := by
    unfold onStream
    split <;> exact ⟨rfl, rfl, rfl⟩
  mapStreams _ _ := ⟨rfl, rfl, rfl⟩
  remove _ _ := ⟨rfl, rfl, rfl⟩
  action _ _ := ⟨rfl, rfl, rfl⟩
  enqueue _ _ := ⟨rfl, rfl, rfl⟩

theorem SameHeaders.of_conn (h : s'.conn = s.conn) : SameHeaders s s' :=
  ⟨congrArg (·.decoder) h, congrArg (·.expectingContinuation) h, congrArg (·.continuationStreamId) h⟩

theorem SameHeaders.files : Files SameHeaders := fun h => .of_conn (staticAnswer_file h).conn

theorem SameHeaders.creates : Creates SameHeaders := by
  intro s streamId
  unfold createStream
  dsimp only
  split <;> exact ⟨rfl, rfl, rfl⟩

/-- No action is added. -/
def SameActions (s s' : Http2StreamManager) : Prop := s'.pendingActions = s.pendingActions

theorem SameActions.modifyStream (s : Http2StreamManager) (streamId : UInt32)
    (f : Http2Stream → Http2Stream) : SameActions s (s.modifyStream streamId f) := by
  unfold Http2StreamManager.modifyStream onStream
  split <;> rfl

theorem SameActions.quiet : Quiet SameActions where
  refl _ := rfl
  trans h h' := Eq.trans h' h
  idle h := h.pendingActions
  onStream s streamId _ := by
    unfold onStream
    split <;> rfl
  mapStreams _ _ := rfl
  remove _ _ := rfl

theorem SameActions.files : Files SameActions := fun h => (staticAnswer_file h).pendingActions

theorem SameActions.creates : Creates SameActions := by
  intro s streamId
  unfold createStream
  dsimp only
  split <;> rfl

theorem SameActions.blocks : Blocks SameActions where
  block s streamId _ := SameActions.modifyStream s streamId _
  decoder _ _ := rfl
  expecting _ _ _ := rfl

theorem setExpectingContinuation_self {s : Http2StreamManager}
    (h : s.conn.expectingContinuation = expecting) (hid : s.conn.continuationStreamId = streamId) :
    s.setExpectingContinuation expecting streamId = s := by
  subst h hid
  rfl

section Opening
variable {s : Http2StreamManager} {streamId : UInt32} (hopens : s.OpensStream streamId)
include hopens

/-- What the parsed path does for a stream that is opened with all its headers. -/
theorem handleHeadersFrame_opens (hact : s.activeConnMode = true)
    (hserver : s.conn.isClient = false) {view : Http2RawFrameView}
    (hprio : view.header.hasPriority = false) (hend : view.endHeaders = true)
    (files : StaticFiles) :
    s.handleHeadersFrame files { header := view.header, headerBlock := view.payload } streamId =
      (((s.createStreamInternal streamId).setLastPeerStreamId streamId).receiveHeaders files streamId
        view.payload view.endStream true).tryRetireClientStream streamId := by
  have hfind : s.findOrCreateHeadersStream streamId =
      (s.createStreamInternal streamId).setLastPeerStreamId streamId := by
    unfold findOrCreateHeadersStream
    rw [findAttachedStream_none hopens.absent]
    dsimp only
    rw [hopens.absent, hserver, hopens.accepted, hopens.room, if_neg (UInt32.not_le.2 hopens.newer)]
    rfl
  obtain ⟨stream, hstream, hst, -⟩ := getStream_createStreamInternal hopens.absent
  have hmode := SameMode.closed.openStream SameMode.creates s streamId
  unfold handleHeadersFrame
  rw [hfind, receiveParsedHeaders_eq_raw (hmode.activeConnMode.trans hact) hprio files streamId,
    receiveRawHeaders, show ((s.createStreamInternal streamId).setLastPeerStreamId streamId
      ).conn.getStream streamId = some stream from hstream, hend]
  dsimp only
  rw [if_neg (by simp [Http2Stream.canReceiveHeaders, hst])]

theorem handleRawHeadersFrameView_opens
    (hpadded : view.header.isPadded = false) (hprio : view.header.hasPriority = false)
    (hroutes : s.conn.runtimeConfig.staticRoutes = [])
    (hmounts : s.conn.runtimeConfig.staticFileMounts = []) (hend : view.endHeaders = true)
    (files : StaticFiles) : s.handleRawHeadersFrameView files view streamId =
      some (s.decodeAndOpen files streamId view.payload view.endStream) := by
  unfold handleRawHeadersFrameView
  rw [hpadded, hprio, findAttachedStream_none hopens.absent]
  dsimp only
  rw [hopens.absent, hopens.accepted, hopens.room, hend]
  simp [UInt32.not_le.2 hopens.newer, openRawStream, hroutes, hmounts]

/-- The block of a new stream is the payload of its first frame. -/
theorem decodeBufferedHeaders_opens
    (hdecode : s.conn.decoder.decode payload = (.ok fields, decoder)) (endStream : Bool) :
    let t := (s.createStreamInternal streamId).setLastPeerStreamId streamId
    ((t.onStream streamId (·.onHeadersReceived endStream)).modifyStream streamId
        (·.appendHeaderBlock payload)).decodeBufferedHeaders streamId =
      ((((t.setDecoder decoder).onStream streamId (·.onHeadersReceived endStream)).modifyStream
        streamId (·.setDecodedHeaders fields)).setExpectingContinuation false 0) := by
  intro t
  obtain ⟨stream, hstream, -, hblock, -⟩ := getStream_createStreamInternal hopens.absent
  have hrecv : KeepsId (Http2Stream.onHeadersReceived endStream) := fun stream io =>
    (stream.onHeadersReceived_sends endStream io).streamId
  have hkeeps : KeepsId fun stream io => (Http2Stream.appendHeaderBlock payload
      (stream.onHeadersReceived endStream io).1, (stream.onHeadersReceived endStream io).2) :=
    hrecv
  have hcollect : (t.onStream streamId (·.onHeadersReceived endStream)).modifyStream streamId
      (·.appendHeaderBlock payload) = t.onStream streamId fun stream io =>
        (Http2Stream.appendHeaderBlock payload (stream.onHeadersReceived endStream io).1,
          (stream.onHeadersReceived endStream io).2) :=
    onStream_onStream hrecv fun _ _ => rfl
  have hget := getStream_onStream hkeeps (show t.conn.getStream streamId = some stream from hstream)
  have hbuffered : (stream.onHeadersReceived endStream t.io).1.headerBlock = [] :=
    (stream.onHeadersReceived_sends endStream t.io).headerBlock.trans hblock
  have hdecoder : t.conn.decoder = s.conn.decoder :=
    (SameHeaders.closed.openStream SameHeaders.creates s streamId).decoder
  have hsame : (t.onStream streamId fun stream io => (Http2Stream.appendHeaderBlock payload
      (stream.onHeadersReceived endStream io).1, (stream.onHeadersReceived endStream io).2)
      ).conn.decoder = s.conn.decoder := by
    rw [onStream_some (show t.conn.getStream streamId = some stream from hstream)]
    exact hdecoder
  have hfinish : ∀ u : Http2StreamManager,
      (u.modifyStream streamId (·.setDecodedHeaders fields)).modifyStream streamId
        (·.clearHeaderBlock) =
      u.modifyStream streamId fun stream => (stream.setDecodedHeaders fields).clearHeaderBlock :=
    fun u => onStream_onStream (fun _ _ => rfl) fun _ _ => rfl
  have hpay : (Http2Stream.appendHeaderBlock payload
      (stream.onHeadersReceived endStream t.io).1).headerBlock = payload := by
    rw [Http2Stream.appendHeaderBlock, hbuffered, List.nil_append]
  rw [hcollect, decodeBufferedHeaders, hget]
  dsimp only
  rw [hsame, hpay, hdecode]
  dsimp only
  rw [← onStream_setDecoder, hfinish]
  refine congrArg (setExpectingContinuation · false 0) ?_
  unfold modifyStream
  rw [onStream_onStream hkeeps fun _ _ => rfl, onStream_onStream hrecv fun _ _ => rfl]
  refine onStream_congr fun stream' hstream' => ?_
  obtain rfl : stream = stream' := Option.some.inj (hstream.symm.trans hstream')
  refine Prod.ext ?_ rfl
  simp only [Http2Stream.clearHeaderBlock, Http2Stream.setDecodedHeaders,
    Http2Stream.appendHeaderBlock]
  rw [← hbuffered]
  rfl

section

variable (hact : s.activeConnMode = true) (hserver : s.conn.isClient = false)
include hact hserver

variable {view : Http2RawFrameView}

section

variable (hprio : view.header.hasPriority = false)

include hprio

section

variable (hend : view.endHeaders = true)

include hend

/-- With a block that decodes and no block begun, the two paths open the stream alike. -/
theorem decodeAndOpen_eq (hdecode : s.conn.decoder.decode view.payload = (.ok fields, decoder))
    (hexp : s.conn.expectingContinuation = false) (hid : s.conn.continuationStreamId = 0)
    (files : StaticFiles) :
    s.decodeAndOpen files streamId view.payload view.endStream = s.handleHeadersFrame files
      { header := view.header, headerBlock := view.payload } streamId := by
  have hblock := decodeBufferedHeaders_opens hopens hdecode view.endStream
  have hopen : ((s.setDecoder decoder).createStreamInternal streamId).setLastPeerStreamId streamId =
      ((s.createStreamInternal streamId).setLastPeerStreamId streamId).setDecoder decoder := by
    rw [createStreamInternal_setDecoder]
    rfl
  rw [handleHeadersFrame_opens hopens hact hserver hprio hend, decodeAndOpen, hdecode]
  dsimp only at hblock ⊢
  unfold openDecodedStream receiveHeaders completeReceivedHeaders
  rw [hopen, if_pos rfl, hblock]
  have hopened := SameHeaders.closed.openStream SameHeaders.creates s streamId
  generalize (s.createStreamInternal streamId).setLastPeerStreamId streamId = t at hopened ⊢
  have hbegun : SameHeaders (t.setDecoder decoder) (((t.setDecoder decoder).onStream streamId
      (·.onHeadersReceived view.endStream)).modifyStream streamId (·.setDecodedHeaders fields)) :=
    SameHeaders.closed.trans (SameHeaders.closed.onStream _ streamId fun stream io =>
      ⟨[], (stream.onHeadersReceived_sends view.endStream io).toSends⟩)
      (SameHeaders.closed.modifyStream _ streamId fun _ => rfl)
  have hcont := hbegun.expectingContinuation.trans (hopened.expectingContinuation.trans hexp)
  have hcontId := hbegun.continuationStreamId.trans (hopened.continuationStreamId.trans hid)
  rw [setExpectingContinuation_self hcont hcontId]

/-- A wrong block is reported on the raw path only. -/
theorem decodeAndOpen_wrong_ne
    (hdecode : s.conn.decoder.decode view.payload = (.error error, decoder)) (files : StaticFiles) :
    (s.decodeAndOpen files streamId view.payload view.endStream).pendingActions ≠
      (s.handleHeadersFrame files { header := view.header, headerBlock := view.payload } streamId
        ).pendingActions := by
  have hparsed : SameActions s (s.handleHeadersFrame files
      { header := view.header, headerBlock := view.payload } streamId) := by
    rw [handleHeadersFrame_opens hopens hact hserver hprio hend]
    exact SameActions.quiet.trans (SameActions.quiet.openStream SameActions.creates s streamId)
      (SameActions.quiet.trans (SameActions.quiet.receiveHeaders SameActions.files
        SameActions.blocks _ files streamId _ _ _)
        (SameActions.quiet.tryRetireClientStream _ streamId))
  rw [hparsed, decodeAndOpen, hdecode]
  exact fun h => absurd (congrArg List.length h)
    (by simp [enqueueGoawayAction, enqueueAction, setDecoder])

/-- The parsed path ends a block that was begun, the raw path does not: they agree if there is none. -/
theorem not_begun_of_decodeAndOpen
    (hdecode : s.conn.decoder.decode view.payload = (.ok fields, decoder)) (files : StaticFiles)
    (hexp : (s.decodeAndOpen files streamId view.payload view.endStream ).conn.expectingContinuation = (s.handleHeadersFrame files { header := view.header, headerBlock := view.payload } streamId).conn.expectingContinuation)
    (hid : (s.decodeAndOpen files streamId view.payload view.endStream).conn.continuationStreamId = (s.handleHeadersFrame files { header := view.header, headerBlock := view.payload } streamId ).conn.continuationStreamId)
    : s.conn.expectingContinuation = false ∧ s.conn.continuationStreamId = 0 := by
  have hraw : SameHeaders (s.setDecoder decoder)
      (s.decodeAndOpen files streamId view.payload view.endStream) := by
    rw [decodeAndOpen, hdecode]
    exact SameHeaders.closed.openDecodedStream SameHeaders.files SameHeaders.creates _ files streamId
      fields view.endStream
  have hparsed : ∃ t : Http2StreamManager, SameHeaders (t.setExpectingContinuation false 0)
      (s.handleHeadersFrame files { header := view.header, headerBlock := view.payload } streamId) := by
    have hblock := decodeBufferedHeaders_opens hopens hdecode view.endStream
    rw [handleHeadersFrame_opens hopens hact hserver hprio hend]
    dsimp only at hblock
    unfold receiveHeaders completeReceivedHeaders
    rw [if_pos rfl, hblock]
    exact ⟨_, SameHeaders.closed.trans (SameHeaders.closed.completeDecodedHeaders SameHeaders.files _
      files streamId _) (SameHeaders.closed.tryRetireClientStream _ streamId)⟩
  obtain ⟨t, hparsed⟩ := hparsed
  exact ⟨(hraw.expectingContinuation.symm.trans hexp).trans hparsed.expectingContinuation,
    (hraw.continuationStreamId.symm.trans hid).trans hparsed.continuationStreamId⟩

end

end

end

end Opening

/-! ## Agreement -/

/-- The frames that the raw path takes. -/
def OnRawPath (view : Http2RawFrameView) : Prop :=
  (view.isHeaders = true ∧ view.header.isPadded = false ∧ view.header.hasPriority = false) ∨
    view.isContinuation = true ∨ (view.isData = true ∧ view.header.isPadded = false)

/-- The two states have the same actions, streams with all they hold, receive windows, decoder and
continuation state. -/
structure SameOutcome (s s' : Http2StreamManager) : Prop where
  pendingActions : s.pendingActions = s'.pendingActions
  streams : s.conn.streams = s'.conn.streams
  connRecvWindow : s.conn.connRecvWindow = s'.conn.connRecvWindow
  decoder : s.conn.decoder = s'.conn.decoder
  lastPeerStreamId : s.conn.lastPeerStreamId = s'.conn.lastPeerStreamId
  expectingContinuation : s.conn.expectingContinuation = s'.conn.expectingContinuation
  continuationStreamId : s.conn.continuationStreamId = s'.conn.continuationStreamId

theorem SameOutcome.of_eq (h : s = s') : SameOutcome s s' := by
  subst h
  constructor <;> rfl

/-- The frame is not on stream `0`; and if it opens a stream with all its headers, these can be
decoded and no other block is begun. -/
structure PathsAgree (s : Http2StreamManager) (view : Http2RawFrameView) : Prop where
  streamId : view.streamId ≠ 0
  opens : view.isHeaders = true → view.endHeaders = true → s.OpensStream view.streamId →
    (∃ fields, (s.conn.decoder.decode view.payload).1 = .ok fields) ∧
      s.conn.expectingContinuation = false ∧ s.conn.continuationStreamId = 0

theorem tryDispatch_zero_ne {s : Http2StreamManager}
    (h : s.tryDispatchServerActiveFrameView files view = some s')
    (hid : view.streamId = 0) (hzero : s.conn.getStream 0 = none) :
    s'.pendingActions ≠ s.pendingActions := by
  have hanswered : ∀ action, s' = s.enqueueAction action → s'.pendingActions ≠ s.pendingActions := by
    rintro action rfl hactions
    exact absurd (congrArg List.length hactions) (by simp [enqueueAction])
  unfold tryDispatchServerActiveFrameView at h
  rw [hid] at h
  split at h
  · exact nomatch h
  split at h
  · unfold handleRawHeadersFrameView at h
    split at h
    · exact nomatch h
    rw [findAttachedStream_none hzero] at h
    dsimp only at h
    rw [hzero] at h
    dsimp only at h
    split at h
    · exact hanswered _ (Option.some.inj h).symm
    rw [if_pos (UInt32.zero_le)] at h
    exact hanswered _ (Option.some.inj h).symm
  split at h
  · unfold handleRawContinuationFrameView at h
    rw [findAttachedStream_none hzero] at h
    dsimp only at h
    rw [hzero] at h
    exact hanswered _ (Option.some.inj h).symm
  split at h
  · unfold handleRawDataFrameView at h
    split at h
    · exact nomatch h
    rw [if_pos rfl] at h
    exact hanswered _ (Option.some.inj h).symm
  exact nomatch h

section Paths
variable {s : Http2StreamManager} {view : Http2RawFrameView} (hact : s.activeConnMode = true)
  (hserver : s.conn.isClient = false)
include hact hserver

theorem tryDispatch_headers (hroutes : s.conn.runtimeConfig.staticRoutes = [])
    (hmounts : s.conn.runtimeConfig.staticFileMounts = []) (hpadded : view.header.isPadded = false)
    (hprio : view.header.hasPriority = false) (files : StaticFiles) (streamId : UInt32) :
    ∃ raw, s.handleRawHeadersFrameView files view streamId = some raw ∧
      (SameOutcome raw (s.handleHeadersFrame files
          { header := view.header, headerBlock := view.payload } streamId) ↔
        (view.endHeaders = true → s.OpensStream streamId →
          (∃ fields, (s.conn.decoder.decode view.payload).1 = .ok fields) ∧
            s.conn.expectingContinuation = false ∧ s.conn.continuationStreamId = 0)) := by
  by_cases hopens : s.OpensStream streamId ∧ view.endHeaders = true
  · obtain ⟨hopens, hend⟩ := hopens
    refine ⟨_, handleRawHeadersFrameView_opens hopens hpadded hprio hroutes hmounts hend files, ?_⟩
    rcases hdecode : s.conn.decoder.decode view.payload with ⟨error | fields, decoder⟩
    · have hne := decodeAndOpen_wrong_ne hopens hact hserver hprio hend hdecode files
      constructor
      · exact fun h => absurd h.pendingActions hne
      intro h
      obtain ⟨⟨fields, hfields⟩, -⟩ := h hend hopens
      exact nomatch hfields
    constructor
    · intro h _ _
      exact ⟨⟨fields, rfl⟩, not_begun_of_decodeAndOpen hopens hact hserver hprio hend hdecode
        files h.expectingContinuation h.continuationStreamId⟩
    intro h
    obtain ⟨-, hexp, hid⟩ := h hend hopens
    exact .of_eq (decodeAndOpen_eq hopens hact hserver hprio hend hdecode hexp hid files)
  refine ⟨_, handleHeadersFrame_eq_raw hact hserver hpadded hprio hopens files, ?_⟩
  exact ⟨fun _ hend h => absurd ⟨h, hend⟩ hopens, fun _ => .of_eq rfl⟩

theorem tryDispatch_spec (files : StaticFiles) (hroutes : s.conn.runtimeConfig.staticRoutes = [])
    (hmounts : s.conn.runtimeConfig.staticFileMounts = []) (hview : OnRawPath view) :
    ∃ raw frame, s.tryDispatchServerActiveFrameView files view = some raw ∧
      materializeFrameView view = .ok frame ∧ (view.streamId ≠ 0 →
        (SameOutcome raw (s.dispatchStreamFrame files frame) ↔ s.PathsAgree view)) := by
  have hagree (hid : view.streamId ≠ 0) (hhdrs : view.isHeaders = false) : s.PathsAgree view :=
    ⟨hid, fun h => absurd h (by rw [hhdrs]; nofun)⟩
  unfold tryDispatchServerActiveFrameView
  rw [hact, hserver, if_neg (by simp)]
  rcases hview with ⟨hview, hpadded, hprio⟩ | hview | ⟨hview, hpadded⟩
  · obtain ⟨raw, hraw, hiff⟩ := tryDispatch_headers hact hserver hroutes hmounts hpadded hprio
      files view.streamId
    refine ⟨raw, _, by rw [if_pos hview, hraw], materialize_headers hview hpadded hprio, ?_⟩
    intro hid
    have hdispatch : s.dispatchStreamFrame files
        (.headers { header := view.header, headerBlock := view.payload }) =
        s.handleHeadersFrame files { header := view.header, headerBlock := view.payload }
          view.streamId := if_neg hid
    rw [hdispatch, hiff]
    exact ⟨fun h => ⟨hid, fun _ => h⟩, fun h => h.opens hview⟩
  · have htype : view.header.type = .Continuation := by
      simpa [Http2RawFrameView.isContinuation] using hview
    have hhdrs : view.isHeaders = false := by simp [Http2RawFrameView.isHeaders, htype]
    refine ⟨_, _, by rw [hhdrs, if_neg (by simp), if_pos hview], materialize_continuation hview, ?_⟩
    intro hid
    have hdispatch : s.dispatchStreamFrame files
        (.continuation { header := view.header, headerBlock := view.payload }) =
        s.handleContinuationFrame files { header := view.header, headerBlock := view.payload }
          view.streamId := if_neg hid
    rw [hdispatch, handleContinuationFrame_eq_raw hact]
    exact ⟨fun _ => hagree hid hhdrs, fun _ => .of_eq rfl⟩
  have htype : view.header.type = .Data := by simpa [Http2RawFrameView.isData] using hview
  have hhdrs : view.isHeaders = false := by simp [Http2RawFrameView.isHeaders, htype]
  have hcontinuation : view.isContinuation = false := by
    simp [Http2RawFrameView.isContinuation, htype]
  refine ⟨_, _, by rw [hhdrs, hcontinuation, if_neg (by simp), if_neg (by simp), if_pos hview,
    handleDataFrame_eq_raw hact hpadded], materialize_data hview hpadded, ?_⟩
  intro hid
  have hdispatch : s.dispatchStreamFrame files
      (.data { header := view.header, data := view.payload }) =
      s.handleDataFrame { header := view.header, data := view.payload } view.streamId := if_neg hid
  rw [hdispatch]
  exact ⟨fun _ => hagree hid hhdrs, fun _ => .of_eq rfl⟩

/-- Without static routes and mounts the raw path takes every frame it is made for, and does what the
parsed path does with it if `PathsAgree`; with no stream `0` in the table, only then. -/
theorem rawPath_agrees (files : StaticFiles) (hroutes : s.conn.runtimeConfig.staticRoutes = [])
    (hmounts : s.conn.runtimeConfig.staticFileMounts = []) (hview : OnRawPath view) :
    ∃ raw frame, s.tryDispatchServerActiveFrameView files view = some raw ∧
      materializeFrameView view = .ok frame ∧
      (s.PathsAgree view → SameOutcome raw (s.dispatchStreamFrame files frame)) ∧
      (s.conn.getStream 0 = none → SameOutcome raw (s.dispatchStreamFrame files frame) →
        s.PathsAgree view) := by
  obtain ⟨raw, frame, hraw, hframe, hiff⟩ :=
    tryDispatch_spec hact hserver files hroutes hmounts hview
  refine ⟨raw, frame, hraw, hframe, fun h => (hiff h.streamId).2 h, fun hzero h => ?_⟩
  by_cases hid : view.streamId = 0
  · -- the parsed path drops the frame
    have hdropped : s.dispatchStreamFrame files frame = s := by
      refine if_pos ?_
      rw [(header_of_materialize hframe).1]
      exact hid
    rw [hdropped] at h
    exact absurd h.pendingActions (tryDispatch_zero_ne hraw hid hzero)
  · exact (hiff hid).1 h

end Paths

/-- HEADERS with all headers of stream `1`: `:method: GET` from the static table. -/
def methodView : Http2RawFrameView where
  bytes := [0, 0, 1, 1, 4, 0, 0, 0, 1, 0x82]
  complete := by decide +kernel

theorem rawPath_agrees_method :
    ∃ raw frame, (prepareForStart {} true).tryDispatchServerActiveFrameView {} methodView = some raw ∧
      materializeFrameView methodView = .ok frame ∧
      SameOutcome raw ((prepareForStart {} true).dispatchStreamFrame {} frame) := by
  have hview : OnRawPath methodView :=
    .inl ⟨by decide +kernel, by decide +kernel, by decide +kernel⟩
  obtain ⟨raw, frame, hraw, hframe, hagree, -⟩ :=
    rawPath_agrees (s := prepareForStart {} true) rfl rfl {} rfl rfl hview
  have hdecode : (({} : HpackDecoder).decode methodView.payload).1 =
      .ok [⟨ascii ":method", ascii "GET"⟩] := by decide +kernel
  exact ⟨raw, frame, hraw, hframe, hagree
    ⟨by decide +kernel, fun _ _ _ => ⟨⟨_, hdecode⟩, rfl, rfl⟩⟩⟩

/-- HEADERS with all headers of stream `1`: an index that no table has. -/
def wrongIndexView : Http2RawFrameView where
  bytes := [0, 0, 1, 1, 4, 0, 0, 0, 1, 0x80]
  complete := by decide +kernel

/-- The wrong block ends the connection on the raw path only. -/
theorem wrongIndex_differs :
    ¬ ∀ (s : Http2StreamManager) (files : StaticFiles) (view : Http2RawFrameView),
      s.activeConnMode = true → s.conn.isClient = false → s.conn.runtimeConfig.staticRoutes = [] →
      s.conn.runtimeConfig.staticFileMounts = [] → OnRawPath view →
      ∃ raw frame, s.tryDispatchServerActiveFrameView files view = some raw ∧
        materializeFrameView view = .ok frame ∧
        SameOutcome raw (s.dispatchStreamFrame files frame) := by
  intro hclaim
  have hhdrs : wrongIndexView.isHeaders = true := by decide +kernel
  have hpadded : wrongIndexView.header.isPadded = false := by decide +kernel
  have hprio : wrongIndexView.header.hasPriority = false := by decide +kernel
  obtain ⟨raw, frame, hraw, hframe, hsame⟩ := hclaim (prepareForStart {} true) {} wrongIndexView
    rfl rfl rfl rfl (.inl ⟨hhdrs, hpadded, hprio⟩)
  rw [materialize_headers hhdrs hpadded hprio] at hframe
  injection hframe with hframe
  have hactions : ((prepareForStart {} true).tryDispatchServerActiveFrameView {} wrongIndexView).map
      (·.pendingActions) = some [.sendGoaway .CompressionError] := by decide +kernel
  have hparsed : ((prepareForStart {} true).dispatchStreamFrame {} (.headers
      { header := wrongIndexView.header, headerBlock := wrongIndexView.payload })).pendingActions =
      [] := by decide +kernel
  rw [hraw, Option.map_some, hsame.pendingActions, ← hframe, hparsed] at hactions
  exact nomatch hactions

end Http2StreamManager

end Galay.Http2
