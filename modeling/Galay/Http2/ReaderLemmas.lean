import Galay.Http2.ManagerLemmas

/-!
# What the reader does with a frame
-/

namespace Galay.Http2

/-! ## Parsed views -/

namespace Http2FrameParser

theorem header_of_parsePayload
    (h : parsePayload header data = .ok frame) : frame.header = header ∧ frame.kind = header.type := by
  unfold parsePayload at h
  split at h
  · next htype =>
    obtain ⟨f, hf, rfl⟩ := Http2FrameCodec.exists_of_map_ok h
    refine ⟨?_, htype.symm⟩
    unfold Http2DataFrame.parsePayload at hf
    split at hf
    · split at hf
      · cases hf
      split at hf <;> cases hf
      rfl
    cases hf
    rfl
  · next htype =>
    obtain ⟨f, hf, rfl⟩ := Http2FrameCodec.exists_of_map_ok h
    refine ⟨?_, htype.symm⟩
    unfold Http2HeadersFrame.parsePayload at hf
    split at hf
    · cases hf
    split at hf
    · cases hf
    next hprio =>
    split at hf <;> cases hf
    unfold Http2HeadersFrame.parsePriority at hprio
    split at hprio
    · split at hprio <;> cases hprio
      rfl
    cases hprio
    rfl
  · next htype =>
    obtain ⟨f, hf, rfl⟩ := Http2FrameCodec.exists_of_map_ok h
    exact ⟨(Http2PriorityFrame.payload_of_parsePayload hf).1, htype.symm⟩
  · next htype =>
    obtain ⟨f, hf, rfl⟩ := Http2FrameCodec.exists_of_map_ok h
    exact ⟨(Http2RstStreamFrame.payload_of_parsePayload hf).1, htype.symm⟩
  · next htype =>
    obtain ⟨f, hf, rfl⟩ := Http2FrameCodec.exists_of_map_ok h
    exact ⟨(Http2SettingsFrame.payload_of_parsePayload hf).1, htype.symm⟩
  · next htype =>
    obtain ⟨f, hf, rfl⟩ := Http2FrameCodec.exists_of_map_ok h
    refine ⟨?_, htype.symm⟩
    unfold Http2PushPromiseFrame.parsePayload at hf
    split at hf
    · cases hf
    dsimp only at hf
    split at hf
    · cases hf
    split at hf <;> cases hf
    rfl
  · next htype =>
    obtain ⟨f, hf, rfl⟩ := Http2FrameCodec.exists_of_map_ok h
    exact ⟨(Http2PingFrame.payload_of_parsePayload hf).1, htype.symm⟩
  · next htype =>
    obtain ⟨f, hf, rfl⟩ := Http2FrameCodec.exists_of_map_ok h
    refine ⟨?_, htype.symm⟩
    unfold Http2GoAwayFrame.parsePayload at hf
    split at hf <;> cases hf
    rfl
  · next htype =>
    obtain ⟨f, hf, rfl⟩ := Http2FrameCodec.exists_of_map_ok h
    refine ⟨?_, htype.symm⟩
    unfold Http2WindowUpdateFrame.parsePayload at hf
    split at hf
    · cases hf
    dsimp only at hf
    split at hf <;> cases hf
    rfl
  · next htype =>
    obtain ⟨f, hf, rfl⟩ := Http2FrameCodec.exists_of_map_ok h
    cases hf
    exact ⟨rfl, htype.symm⟩
  cases h

end Http2FrameParser

namespace Http2RawFrameView

variable (view : Http2RawFrameView)

theorem length_payload : view.payload.length = view.header.length.toNat := by
  have h := view.complete
  unfold payload header
  rw [List.length_drop, h]
  omega

end Http2RawFrameView

namespace Http2StreamManager

theorem materializeFrameView_eq (view : Http2RawFrameView) :
    materializeFrameView view = Http2FrameParser.parsePayload view.header view.payload := by
  have hcompl := view.complete
  have htake : view.payload.take view.header.length.toNat = view.payload := by
    rw [← view.length_payload, List.take_length]
  unfold materializeFrameView Http2FrameParser.parseFrame
  dsimp only
  rw [if_neg (by omega), if_neg (by omega)]
  exact congrArg (Http2FrameParser.parsePayload view.header) htake

theorem header_of_materialize (h : materializeFrameView view = .ok frame) :
    frame.header = view.header ∧ frame.kind = view.header.type :=
  Http2FrameParser.header_of_parsePayload (by rw [← materializeFrameView_eq, h])

/-! ## The cases of the reader -/

/-- What the reader may do with a frame. -/
inductive Received (s : Http2StreamManager) (files : StaticFiles) (view : Http2RawFrameView) :
    Http2StreamManager → Prop
  | ignored (h : s.exitLoop = true) : Received s files view s
  | stopped (error : Http2ErrorCode) : Received s files view (s.stopReader error)
  | connection {frame : Http2Frame} (hframe : materializeFrameView view = .ok frame)
      (hconn : isConnectionFrame frame = true) :
    Received s files view (s.handleConnectionFrame frame)
  | rawHeaders {s' : Http2StreamManager} (hview : view.isHeaders = true)
      (hexp : s.conn.expectingContinuation = false)
      (h : s.handleRawHeadersFrameView files view view.streamId = some s') : Received s files view s'
  | rawContinuation (hview : view.isContinuation = true)
      (hexp : s.conn.expectingContinuation = true →
        view.streamId = s.conn.continuationStreamId) :
    Received s files view (s.handleRawContinuationFrameView files view view.streamId)
  | rawData {s' : Http2StreamManager} (hact : s.activeConnMode = true) (hview : view.isData = true)
      (hexp : s.conn.expectingContinuation = false)
      (h : s.handleRawDataFrameView view view.streamId = some s') : Received s files view s'
  | stream {frame : Http2Frame} (hframe : materializeFrameView view = .ok frame)
      (hexp : s.conn.expectingContinuation = true →
        view.isContinuation = true ∧ view.streamId = s.conn.continuationStreamId) :
    Received s files view (s.dispatchStreamFrame files frame)

theorem expected_of_not_unexpected {s : Http2StreamManager}
    (h : ¬ s.unexpectedFrame isContinuation streamId = true)
    (hexp : s.conn.expectingContinuation = true) :
    isContinuation = true ∧ streamId = s.conn.continuationStreamId := by
  simpa [unexpectedFrame, hexp] using h

theorem isConnectionFrame_of_view
    (h : view.isConnectionFrame = true) (hframe : materializeFrameView view = .ok frame) :
    isConnectionFrame frame = true := by
  obtain ⟨hhdr, hkind⟩ := header_of_materialize hframe
  simp only [Http2RawFrameView.isConnectionFrame, Bool.and_eq_true, Bool.or_eq_true,
    decide_eq_true_eq] at h
  obtain ⟨hid, ((htype | htype) | htype) | htype⟩ := h <;>
    simp [isConnectionFrame, hkind, hhdr, htype, hid]

theorem receive_cases (s : Http2StreamManager) (files : StaticFiles) (view : Http2RawFrameView) :
    Received s files view (s.receive files view) := by
  unfold receive
  split
  · next h => exact .ignored h
  split
  · unfold readFrameView
    split
    · exact .stopped _
    next hexp =>
    have hexp := expected_of_not_unexpected hexp
    split
    · next hconn =>
      split
      · exact .stopped _
      next hframe => exact .connection hframe (isConnectionFrame_of_view hconn hframe)
    split
    · next s' h =>
      unfold tryDispatchServerActiveFrameView at h
      split at h
      · exact nomatch h
      split at h
      · next hview =>
        refine .rawHeaders hview (Bool.eq_false_iff.2 fun hexpecting => ?_) h
        have hboth := (hexp hexpecting).1
        simp only [Http2RawFrameView.isHeaders, Http2RawFrameView.isContinuation,
          decide_eq_true_eq] at hview hboth
        rw [hview] at hboth
        exact nomatch hboth
      split at h
      · next hview =>
        injection h with h
        exact h ▸ .rawContinuation hview fun hexpecting => (hexp hexpecting).2
      split at h
      · next hview =>
        refine .rawData (by simp_all) hview (Bool.eq_false_iff.2 fun hexpecting => ?_) h
        have hboth := (hexp hexpecting).1
        simp only [Http2RawFrameView.isData, Http2RawFrameView.isContinuation,
          decide_eq_true_eq] at hview hboth
        rw [hview] at hboth
        exact nomatch hboth
      exact nomatch h
    split
    · exact .stopped _
    next hframe => exact .stream hframe hexp
  unfold readFrame
  split
  · exact .stopped _
  next frame hframe =>
  obtain ⟨hhdr, hkind⟩ := header_of_materialize hframe
  split
  · exact .stopped _
  next hexp =>
  split
  · next hconn => exact .connection hframe hconn
  refine .stream hframe fun hexpecting => ?_
  have hboth := expected_of_not_unexpected hexp hexpecting
  rw [hhdr, hkind] at hboth
  exact hboth

/-! ## Relations over the reader -/

section Closed
variable {R : Http2StreamManager → Http2StreamManager → Prop} (H : Closed R)
include H

theorem Closed.dispatchStreamFrame (hfile : Files R) (hcreate : Creates R)
    (hblocks : frame.kind = .Headers ∨ frame.kind = .Continuation → Blocks R)
    (hrecv : frame.kind = .Data → Receives R) (hupdate : ∀ {update}, frame = .windowUpdate update →
      R s (s.handleWindowUpdateFrame update update.header.streamId)) :
    R s (s.dispatchStreamFrame files frame) := by
  unfold Http2StreamManager.dispatchStreamFrame
  dsimp only
  split
  · exact H.refl s
  cases frame with
  | headers frame => exact H.handleHeadersFrame hfile (hblocks (.inl rfl)) hcreate s files frame _
  | continuation frame => exact H.handleContinuationFrame hfile (hblocks (.inr rfl)) s files frame _
  | data frame => exact H.handleDataFrame (hrecv rfl) s frame _
  | priority frame => exact H.handlePriorityFrame s frame _
  | rstStream frame => exact H.handleRstStreamFrame s frame _
  | windowUpdate frame => exact hupdate rfl
  | pushPromise frame => exact H.handlePushPromiseFrame hcreate s frame
  | _ => exact H.refl s

/-- A relation holds of every frame if it holds of the frames it is about. -/
theorem Closed.receive (hfile : Files R) (hcreate : Creates R)
    (hblocks : view.header.type = .Headers ∨ view.header.type = .Continuation → Blocks R)
    (hrecv : view.header.type = .Data → Receives R)
    (htargets : Targets R (s.findAttachedStream view.streamId) files view.streamId view.payload)
    (hupdate : ∀ {update}, materializeFrameView view = .ok (.windowUpdate update) →
      R s (s.handleWindowUpdateFrame update update.header.streamId))
    (hconn : ∀ {frame}, materializeFrameView view = .ok frame → isConnectionFrame frame = true →
      R s (s.handleConnectionFrame frame)) : R s (s.receive files view) := by
  have hcases := receive_cases s files view
  generalize s.receive files view = s' at hcases ⊢
  cases hcases with
  | ignored => exact H.refl s
  | stopped error => exact H.stopReader s error
  | connection hframe hconnection => exact hconn hframe hconnection
  | rawHeaders hview _ h =>
    have htype : view.header.type = .Headers := by simpa [Http2RawFrameView.isHeaders] using hview
    exact H.handleRawHeadersFrameView hfile (hblocks (.inl htype)) hcreate htargets h
  | rawContinuation hview =>
    have htype : view.header.type = .Continuation := by
      simpa [Http2RawFrameView.isContinuation] using hview
    exact H.handleRawContinuationFrameView hfile (hblocks (.inr htype)) s files view _
  | rawData _ hview _ h =>
    have htype : view.header.type = .Data := by simpa [Http2RawFrameView.isData] using hview
    exact H.handleRawDataFrameView (hrecv htype) h
  | stream hframe =>
  rw [← (header_of_materialize hframe).2] at hblocks hrecv
  exact H.dispatchStreamFrame hfile hcreate hblocks hrecv fun h => hupdate (h ▸ hframe)

end Closed

/-! ## Calls -/

/-- Every call but `sendFrames` takes the DATA it enqueues from both windows. -/
theorem StreamCall.run_debits {call : StreamCall} (hcall : ∀ frames, call ≠ .sendFrames frames)
    (stream : Http2Stream) (io : Http2StreamIo) :
    ∃ out, Debits out (stream, io) (call.run stream io) := by
  have hsends : ∀ {p : StreamAndIo}, (∃ out, Sends out (stream, io) p) →
      ∃ out, Debits out (stream, io) p := fun ⟨out, h⟩ => ⟨out, h.toDebits⟩
  have hdata : ∀ {p : StreamAndIo}, (∃ out, SendsData out (stream, io) p) →
      ∃ out, Debits out (stream, io) p := fun ⟨out, h⟩ => ⟨out, h.toDebits⟩
  cases call with
  | sendHeaders => exact hsends (stream.sendHeadersInternal_sends _ _ _ io)
  | sendHeadersAndData => exact hsends (stream.sendHeadersAndDataInternal_sends _ _ _ io)
  | sendHeadersAndDataChunks => exact hsends (stream.sendHeadersAndDataChunksInternal_sends _ _ _ io)
  | sendEncodedHeaders => exact hsends (stream.sendEncodedHeadersInternal_sends _ _ _ io)
  | sendEncodedHeadersAndData =>
    exact hsends (stream.sendEncodedHeadersAndDataInternal_sends _ _ _ io)
  | sendEncodedHeadersAndDataChunks =>
    exact hsends (stream.sendEncodedHeadersAndDataChunksInternal_sends _ _ _ io)
  | sendData => exact hdata (stream.queueDataForSend_sends _ _ io)
  | sendDataBatch => exact hdata (stream.sendDataBatchInternal_sends _ _ io)
  | sendDataChunks => exact hdata (stream.sendDataChunksInternal_sends _ _ io)
  | sendFrames frames => exact absurd rfl (hcall frames)
  | sendRstStream => exact hsends (stream.sendRstStreamInternal_sends _ io)
  | sendWindowUpdate => exact stream.sendWindowUpdate_debits _ io
  | takeEvents =>
    have hcore : stream.takeEvents.2.core = stream.core := rfl
    exact hsends ⟨[], .of_core hcore⟩
  | closeFrameQueue => exact hsends ⟨[], .of_core stream.closeFrameQueue_core⟩

theorem StreamCall.run_emits (call : StreamCall) (stream : Http2Stream) (io : Http2StreamIo) :
    ∃ out, Emits out (stream, io) (call.run stream io) := by
  by_cases hcall : ∃ frames, call = .sendFrames frames
  · obtain ⟨frames, rfl⟩ := hcall
    obtain ⟨out, h, -⟩ := stream.sendFrameBatchInternal_spec frames io
    exact ⟨out, h⟩
  obtain ⟨out, h⟩ := StreamCall.run_debits (not_exists.1 hcall) stream io
  exact ⟨out, h.toEmits⟩

end Http2StreamManager

end Galay.Http2
