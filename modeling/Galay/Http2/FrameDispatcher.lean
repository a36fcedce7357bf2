import Galay.Http2.Frame
import Mathlib.Data.List.AList

/-!
# The frame dispatcher (`kernel/frame_dispacher.cc`)
-/

namespace Galay.Http2

inductive H2DispatchActionType
  | DeliverToStream
  | SendGoaway
  | SendRstStream
  | AckSettings
  | AckPing
  | UpdateWindow
  | Ignore
  deriving DecidableEq, Repr

inductive H2DispatchErrorScope
  | None
  | Connection
  | Stream
  deriving DecidableEq, Repr

structure H2DispatchAction where
  type : H2DispatchActionType := .Ignore
  streamId : UInt32 := 0
  errorCode : Http2ErrorCode := .NoError
  deriving DecidableEq, Repr

structure H2DispatchResult where
  actions : List H2DispatchAction := []
  errorCode : Http2ErrorCode := .NoError
  errorScope : H2DispatchErrorScope := .None
  ok : Bool := true
  deriving DecidableEq, Repr

inductive H2StreamLifecycleState
  | Idle
  | ReservedLocal
  | ReservedRemote
  | Open
  | HalfClosedLocal
  | HalfClosedRemote
  | Closed
  deriving DecidableEq, Repr

structure H2DispatcherStreamState where
  lifecycle : H2StreamLifecycleState := .Idle
  deriving DecidableEq, Repr

structure H2DispatcherConnectionState where
  streams : AList fun _ : UInt32 => H2DispatcherStreamState := ∅
  lastPeerStreamId : UInt32 := 0
  goawayLastStreamId : UInt32 := 0
  continuationStreamId : UInt32 := 0
  expectingContinuation : Bool := false
  goawayReceived : Bool := false
  deriving DecidableEq

namespace Http2FrameDispatcher

def connectionError (code : Http2ErrorCode) : H2DispatchResult where
  ok := false
  errorScope := .Connection
  errorCode := code
  actions := [⟨.SendGoaway, 0, code⟩]

def streamError (streamId : UInt32) (code : Http2ErrorCode) : H2DispatchResult where
  ok := false
  errorScope := .Stream
  errorCode := code
  actions := [⟨.SendRstStream, streamId, code⟩]

def requiresNonZeroStream (frame : Http2Frame) : Bool :=
  frame.kind = .Data || frame.kind = .Headers || frame.kind = .Priority || frame.kind = .RstStream ||
    frame.kind = .Continuation

def requiresZeroStream (frame : Http2Frame) : Bool :=
  frame.kind = .Settings || frame.kind = .Ping || frame.kind = .GoAway

/-- The entry of a stream, or a new one. -/
def streamState (state : H2DispatcherConnectionState) (streamId : UInt32) :
    H2DispatcherStreamState :=
  (state.streams.lookup streamId).getD {}

def setStreamState (state : H2DispatcherConnectionState) (streamId : UInt32)
    (stream : H2DispatcherStreamState) : H2DispatcherConnectionState :=
  { state with streams := state.streams.insert streamId stream }

variable (stream : H2DispatcherStreamState)

def isRemoteClosed : Bool :=
  stream.lifecycle = .HalfClosedRemote || stream.lifecycle = .Closed

def markRemoteEndStream : H2DispatcherStreamState :=
  match stream.lifecycle with
  | .Idle | .Open => { lifecycle := .HalfClosedRemote }
  | .HalfClosedLocal => { lifecycle := .Closed }
  | .ReservedLocal | .ReservedRemote | .HalfClosedRemote | .Closed => stream

def canReceiveData : Bool :=
  stream.lifecycle = .Open || stream.lifecycle = .HalfClosedLocal

variable {stream}

def isNewStreamRejectedByGoaway (frame : Http2Frame) (state : H2DispatcherConnectionState)
    (streamId : UInt32) : Bool :=
  if !state.goawayReceived || frame.kind ≠ .Headers then false
  else if streamId ≤ state.goawayLastStreamId then false
  else (state.streams.lookup streamId).isNone

def deliver (streamId : UInt32) : H2DispatchResult where
  actions := [⟨.DeliverToStream, streamId, .NoError⟩]

/-- HEADERS on a stream that the peer has not closed. -/
def openHeaders (state : H2DispatcherConnectionState) (header : Http2FrameHeader)
    (streamId : UInt32) : H2DispatcherConnectionState :=
  let stream := streamState state streamId
  let idle : Bool := stream.lifecycle = .Idle
  let stream : H2DispatcherStreamState := if idle then { lifecycle := .Open } else stream
  let stream := if header.isEndStream then markRemoteEndStream stream else stream
  let state := setStreamState state streamId stream
  let state :=
    if idle && streamId > state.lastPeerStreamId then { state with lastPeerStreamId := streamId }
    else state
  if header.isEndHeaders then
    { state with expectingContinuation := false, continuationStreamId := 0 }
  else { state with expectingContinuation := true, continuationStreamId := streamId }

/-- A frame that the checks of the connection have let through. -/
def dispatchFrame (state : H2DispatcherConnectionState) (streamId : UInt32) :
    Http2Frame → H2DispatchResult × H2DispatcherConnectionState
  | .headers frame =>
    if isRemoteClosed (streamState state streamId) then (streamError streamId .ProtocolError, state)
    else (deliver streamId, openHeaders state frame.header streamId)
  | .data frame =>
    match state.streams.lookup streamId with
    | none => (streamError streamId .ProtocolError, state)
    | some stream =>
      if !canReceiveData stream then (streamError streamId .ProtocolError, state)
      else
        (deliver streamId,
          if frame.header.isEndStream then setStreamState state streamId (markRemoteEndStream stream)
          else state)
  | .continuation frame =>
    if !state.expectingContinuation || streamId ≠ state.continuationStreamId then
      (connectionError .ProtocolError, state)
    else
      (deliver streamId, if frame.header.isEndHeaders then
          { state with expectingContinuation := false, continuationStreamId := 0 } else state)
  | .rstStream _ => (deliver streamId, setStreamState state streamId { lifecycle := .Closed })
  | .goAway frame =>
    ({}, { state with goawayReceived := true, goawayLastStreamId := frame.lastStreamId })
  | .windowUpdate frame =>
    if frame.windowSizeIncrement = 0 then
      (if streamId = 0 then connectionError .ProtocolError else streamError streamId .ProtocolError,
        state)
    else ({ actions := [⟨.UpdateWindow, streamId, .NoError⟩] }, state)
  | .priority _ | .pushPromise _ => (deliver streamId, state)
  | .settings _ | .ping _ => ({}, state)

def dispatch (frame : Http2Frame) (state : H2DispatcherConnectionState) :
    H2DispatchResult × H2DispatcherConnectionState :=
  let streamId := frame.header.streamId
  if requiresNonZeroStream frame && streamId = 0 then (connectionError .ProtocolError, state)
  else if requiresZeroStream frame && streamId ≠ 0 then (connectionError .ProtocolError, state)
  else if state.expectingContinuation &&
      (frame.kind ≠ .Continuation || streamId ≠ state.continuationStreamId) then
    (connectionError .ProtocolError, state)
  else if isNewStreamRejectedByGoaway frame state streamId then
    (streamError streamId .ProtocolError, state)
  else dispatchFrame state streamId frame

/-- The state after a sequence of frames. -/
def run (frames : List Http2Frame) : H2DispatcherConnectionState :=
  frames.foldl (fun state frame => (dispatch frame state).2) {}

/-! ## What a dispatch can do -/

/-- The result delivers the frame to a stream. -/
def Delivers (result : H2DispatchResult) : Prop :=
  ∃ action ∈ result.actions, action.type = .DeliverToStream

instance Delivers.decidable (result : H2DispatchResult) : Decidable (Delivers result) :=
  inferInstanceAs (Decidable (∃ action ∈ result.actions, action.type = .DeliverToStream))

theorem delivers_deliver (streamId : UInt32) : Delivers (deliver streamId) :=
  ⟨_, List.mem_singleton.2 rfl, rfl⟩

theorem not_delivers_connectionError (code : Http2ErrorCode) : ¬ Delivers (connectionError code) := by
  rintro ⟨action, haction, h⟩
  rw [List.mem_singleton.1 haction] at h
  exact nomatch h

theorem not_delivers_streamError (streamId : UInt32) (code : Http2ErrorCode) :
    ¬ Delivers (streamError streamId code) := by
  rintro ⟨action, haction, h⟩
  rw [List.mem_singleton.1 haction] at h
  exact nomatch h

/-- The cases of `dispatch`. -/
inductive Dispatched (s : H2DispatcherConnectionState) (frame : Http2Frame) :
    H2DispatchResult × H2DispatcherConnectionState → Prop
  | failed {result} (hok : result.ok = false) (hdeliver : ¬ Delivers result) :
    Dispatched s frame (result, s)
  | headers {f} (hframe : frame = .headers f) (hexp : s.expectingContinuation = false)
      (hopen : isRemoteClosed (streamState s frame.header.streamId) = false) :
    Dispatched s frame (deliver frame.header.streamId,
      openHeaders s frame.header frame.header.streamId)
  | data {f stream} (hframe : frame = .data f) (hexp : s.expectingContinuation = false)
      (hstream : s.streams.lookup frame.header.streamId = some stream)
      (hreceive : canReceiveData stream = true) :
    Dispatched s frame (deliver frame.header.streamId,
      if frame.header.isEndStream then
        setStreamState s frame.header.streamId (markRemoteEndStream stream)
      else s)
  | continuation {f} (hframe : frame = .continuation f) (hexp : s.expectingContinuation = true)
      (hid : frame.header.streamId = s.continuationStreamId) :
    Dispatched s frame (deliver frame.header.streamId,
      if frame.header.isEndHeaders then
        { s with expectingContinuation := false, continuationStreamId := 0 }
      else s)
  | rstStream {f} (hframe : frame = .rstStream f) (hexp : s.expectingContinuation = false) :
    Dispatched s frame (deliver frame.header.streamId,
      setStreamState s frame.header.streamId { lifecycle := .Closed })
  | goAway {f} (hframe : frame = .goAway f) (hexp : s.expectingContinuation = false) :
    Dispatched s frame ({}, { s with goawayReceived := true, goawayLastStreamId := f.lastStreamId })
  | other {result} (hkind : frame.kind ≠ .Headers ∧ frame.kind ≠ .Data ∧
        frame.kind ≠ .Continuation ∧ frame.kind ≠ .RstStream) (hok : result.ok = true)
      (hexp : s.expectingContinuation = false) : Dispatched s frame (result, s)

theorem dispatch_cases (s : H2DispatcherConnectionState) (frame : Http2Frame) :
    Dispatched s frame (dispatch frame s) := by
  unfold dispatch
  dsimp only
  split
  · exact .failed rfl (not_delivers_connectionError _)
  split
  · exact .failed rfl (not_delivers_connectionError _)
  split
  · exact .failed rfl (not_delivers_connectionError _)
  next hexp =>
  split
  · exact .failed rfl (not_delivers_streamError _ _)
  have hnot (hkind : frame.kind ≠ .Continuation) : s.expectingContinuation = false := by
    simpa [hkind] using hexp
  cases frame with
  | headers f =>
    unfold dispatchFrame
    dsimp only
    split
    · exact .failed rfl (not_delivers_streamError _ _)
    next hopen => exact .headers rfl (hnot nofun) (Bool.eq_false_iff.2 hopen)
  | data f =>
    unfold dispatchFrame
    dsimp only
    split
    · exact .failed rfl (not_delivers_streamError _ _)
    next stream hstream =>
    split
    · exact .failed rfl (not_delivers_streamError _ _)
    next hreceive => exact .data rfl (hnot nofun) hstream (by simpa using hreceive)
  | continuation f =>
    unfold dispatchFrame
    dsimp only
    split
    · exact .failed rfl (not_delivers_connectionError _)
    next h =>
    simp only [Bool.or_eq_true, Bool.not_eq_true', decide_eq_true_eq, not_or,
      Bool.not_eq_false, Decidable.not_not] at h
    exact .continuation rfl h.1 h.2
  | rstStream f => exact .rstStream rfl (hnot nofun)
  | goAway f => exact .goAway rfl (hnot nofun)
  | windowUpdate f =>
    unfold dispatchFrame
    dsimp only
    split
    · split
      · exact .failed rfl (not_delivers_connectionError _)
      exact .failed rfl (not_delivers_streamError _ _)
    exact .other ⟨nofun, nofun, nofun, nofun⟩ rfl (hnot nofun)
  | priority f => exact .other ⟨nofun, nofun, nofun, nofun⟩ rfl (hnot nofun)
  | pushPromise f => exact .other ⟨nofun, nofun, nofun, nofun⟩ rfl (hnot nofun)
  | settings f => exact .other ⟨nofun, nofun, nofun, nofun⟩ rfl (hnot nofun)
  | ping f => exact .other ⟨nofun, nofun, nofun, nofun⟩ rfl (hnot nofun)

variable {s : H2DispatcherConnectionState} {frame : Http2Frame}

theorem dispatch_failed (h : (dispatch frame s).1.ok = false) : (dispatch frame s).2 = s := by
  have hcases := dispatch_cases s frame
  generalize dispatch frame s = r at h hcases ⊢
  cases hcases with
  | failed => rfl
  | other _ hok => exact nomatch h.symm.trans hok
  | _ => exact nomatch h

/-! ## Header blocks -/

/-- The stream of the header block that a frame with this result leaves open; `last` was open
before. -/
def openBlockStep (result : H2DispatchResult) (last : Option UInt32) (frame : Http2Frame) :
    Option UInt32 :=
  if (frame.kind = .Headers ∨ frame.kind = .Continuation) ∧ Delivers result then
    if frame.header.isEndHeaders then none else some frame.header.streamId
  else last

/-- The stream of the last HEADERS or CONTINUATION frame that was delivered, if that frame has no
END_HEADERS. -/
def openBlock (s : H2DispatcherConnectionState) (last : Option UInt32) :
    List Http2Frame → Option UInt32
  | [] => last
  | frame :: frames =>
    openBlock (dispatch frame s).2 (openBlockStep (dispatch frame s).1 last frame) frames

variable {last : Option UInt32}

theorem openBlockStep_of_kind (hhdrs : frame.kind ≠ .Headers)
    (hcontinuation : frame.kind ≠ .Continuation) : openBlockStep result last frame = last :=
  if_neg fun h => h.1.elim hhdrs hcontinuation

theorem openBlockStep_deliver (hkind : frame.kind = .Headers ∨ frame.kind = .Continuation)
    (streamId : UInt32) :
    openBlockStep (deliver streamId) last frame =
      if frame.header.isEndHeaders then none else some frame.header.streamId :=
  if_pos ⟨hkind, delivers_deliver streamId⟩

/-- The state knows the block that is open. -/
structure KnowsBlock (s : H2DispatcherConnectionState) (last : Option UInt32) : Prop where
  expecting : s.expectingContinuation = last.isSome
  streamId : ∀ streamId, last = some streamId → s.continuationStreamId = streamId

theorem KnowsBlock.of_endHeaders {streamId : UInt32}
    (hexp : s.expectingContinuation = !endHeaders)
    (hid : endHeaders = false → s.continuationStreamId = streamId) :
    KnowsBlock s (if endHeaders then none else some streamId) := by
  cases endHeaders with
  | true => exact ⟨hexp, fun _ h => nomatch h⟩
  | false => exact ⟨hexp, fun _ h => (hid rfl).trans (Option.some.inj h)⟩

theorem openHeaders_expecting (s : H2DispatcherConnectionState) (header : Http2FrameHeader)
    (streamId : UInt32) :
    (openHeaders s header streamId).expectingContinuation = !header.isEndHeaders ∧
      (header.isEndHeaders = false →
        (openHeaders s header streamId).continuationStreamId = streamId) := by
  unfold openHeaders
  cases header.isEndHeaders with
  | true => exact ⟨rfl, nofun⟩
  | false => exact ⟨rfl, fun _ => rfl⟩

theorem KnowsBlock.step (h : KnowsBlock s last) (frame : Http2Frame) :
    KnowsBlock (dispatch frame s).2 (openBlockStep (dispatch frame s).1 last frame) := by
  have hcases := dispatch_cases s frame
  generalize dispatch frame s = r at hcases ⊢
  cases hcases with
  | @failed result _ hdeliver =>
    have hlast : openBlockStep result last frame = last := if_neg fun h => hdeliver h.2
    rw [hlast]
    exact h
  | headers hframe =>
    rw [openBlockStep_deliver (.inl (by rw [hframe]; rfl))]
    obtain ⟨hexp, hid⟩ := openHeaders_expecting s frame.header frame.header.streamId
    exact .of_endHeaders hexp hid
  | data hframe =>
    rw [openBlockStep_of_kind (by rw [hframe]; nofun) (by rw [hframe]; nofun)]
    dsimp only
    split
    · exact ⟨h.expecting, h.streamId⟩
    exact h
  | continuation hframe hexp hid =>
    rw [openBlockStep_deliver (.inr (by rw [hframe]; rfl))]
    dsimp only
    refine .of_endHeaders ?_ fun hend => ?_
    · split
      · next hend => rw [hend]; rfl
      next hend => rw [Bool.eq_false_iff.2 hend, hexp]; rfl
    rw [hend]
    exact hid.symm
  | rstStream hframe =>
    rw [openBlockStep_of_kind (by rw [hframe]; nofun) (by rw [hframe]; nofun)]
    exact ⟨h.expecting, h.streamId⟩
  | goAway hframe =>
    rw [openBlockStep_of_kind (by rw [hframe]; nofun) (by rw [hframe]; nofun)]
    exact ⟨h.expecting, h.streamId⟩
  | other hkind =>
  rw [openBlockStep_of_kind hkind.1 hkind.2.2.1]
  exact h

theorem KnowsBlock.run (h : KnowsBlock s last) (frames : List Http2Frame) :
    KnowsBlock (frames.foldl (fun s frame => (dispatch frame s).2) s) (openBlock s last frames) := by
  induction frames generalizing s last with
  | nil => exact h
  | cons frame frames ih => exact ih (h.step frame)

theorem delivers_expecting (hexp : s.expectingContinuation = true)
    (h : Delivers (dispatch frame s).1) :
    frame.kind = .Continuation ∧ frame.header.streamId = s.continuationStreamId := by
  have hcases := dispatch_cases s frame
  generalize dispatch frame s = r at h hcases
  cases hcases with
  | failed _ hdeliver => exact absurd h hdeliver
  | continuation hframe _ hid => exact ⟨by rw [hframe]; rfl, hid⟩
  | headers _ hnot | data _ hnot | rstStream _ hnot | goAway _ hnot | other _ _ hnot =>
  exact nomatch hexp.symm.trans hnot

/-! ## Ended streams -/

variable (s)

theorem streamState_setStreamState (streamId other : UInt32) (stream : H2DispatcherStreamState) :
    streamState (setStreamState s streamId stream) other =
      if other = streamId then stream else streamState s other := by
  unfold streamState setStreamState
  by_cases h : other = streamId
  · subst h
    simp
  rw [if_neg h]
  simp only [AList.lookup_insert_ne h]

/-- No stream is reserved: PUSH_PROMISE leaves no entry. -/
def NotReserved (stream : H2DispatcherStreamState) : Prop :=
  stream.lifecycle ≠ .ReservedLocal ∧ stream.lifecycle ≠ .ReservedRemote

theorem markRemoteEndStream_spec (h : NotReserved stream) :
    NotReserved (markRemoteEndStream stream) ∧ isRemoteClosed (markRemoteEndStream stream) = true := by
  obtain ⟨lifecycle⟩ := stream
  cases lifecycle with
  | ReservedLocal => exact absurd rfl h.1
  | ReservedRemote => exact absurd rfl h.2
  | _ => exact ⟨⟨nofun, nofun⟩, rfl⟩

/-- The entry of a stream after HEADERS. -/
def headersStream (stream : H2DispatcherStreamState) (endStream : Bool) : H2DispatcherStreamState :=
  let stream : H2DispatcherStreamState :=
    if stream.lifecycle = .Idle then { lifecycle := .Open } else stream
  if endStream then markRemoteEndStream stream else stream

theorem headersStream_spec (h : NotReserved stream) (endStream : Bool) :
    NotReserved (headersStream stream endStream) ∧
      (endStream = true → isRemoteClosed (headersStream stream endStream) = true) := by
  have hopen : NotReserved (if stream.lifecycle = .Idle then { lifecycle := .Open } else stream) := by
    split
    · exact ⟨nofun, nofun⟩
    exact h
  obtain ⟨hreserved, hclosed⟩ := markRemoteEndStream_spec hopen
  cases endStream with
  | true => exact ⟨hreserved, fun _ => hclosed⟩
  | false => exact ⟨hopen, nofun⟩

theorem streamState_openHeaders (header : Http2FrameHeader) (streamId other : UInt32) :
    streamState (openHeaders s header streamId) other =
      if other = streamId then headersStream (streamState s streamId) header.isEndStream
      else streamState s other := by
  have hstreams : (openHeaders s header streamId).streams = (setStreamState s streamId
      (headersStream (streamState s streamId) header.isEndStream)).streams := by
    unfold openHeaders headersStream
    simp only [apply_ite H2DispatcherConnectionState.streams, ite_self, decide_eq_true_eq]
  rw [← streamState_setStreamState, streamState, hstreams]
  rfl

variable {s}

/-- A frame with which the peer ends a stream. -/
def EndsStream (frame : Http2Frame) : Prop :=
  ((frame.kind = .Data ∨ frame.kind = .Headers) ∧ frame.header.isEndStream = true) ∨
    frame.kind = .RstStream

theorem dispatch_streamState (hs : ∀ streamId, NotReserved (streamState s streamId))
    (frame : Http2Frame) (streamId : UInt32) :
    NotReserved (streamState (dispatch frame s).2 streamId) ∧
      (isRemoteClosed (streamState s streamId) = true →
        isRemoteClosed (streamState (dispatch frame s).2 streamId) = true) ∧
      (Delivers (dispatch frame s).1 → EndsStream frame → frame.header.streamId = streamId →
        isRemoteClosed (streamState (dispatch frame s).2 streamId) = true) := by
  have hcases := dispatch_cases s frame
  generalize dispatch frame s = r at hcases ⊢
  cases hcases with
  | failed _ hdeliver => exact ⟨hs streamId, fun h => h, fun h => absurd h hdeliver⟩
  | goAway hframe =>
    subst hframe
    refine ⟨hs streamId, fun h => h, ?_⟩
    rintro - (⟨hkind | hkind, -⟩ | hkind) <;> exact nomatch hkind
  | other hkind =>
    refine ⟨hs streamId, fun h => h, ?_⟩
    rintro - (⟨hdata | hhdrs, -⟩ | hrst)
    · exact absurd hdata hkind.2.1
    · exact absurd hhdrs hkind.1
    exact absurd hrst hkind.2.2.2
  | @continuation f hframe =>
    subst hframe
    dsimp only
    have hsame : streamState (if (Http2Frame.continuation f).header.isEndHeaders then
        { s with expectingContinuation := false, continuationStreamId := 0 } else s) streamId =
        streamState s streamId := by split <;> rfl
    rw [hsame]
    refine ⟨hs streamId, fun h => h, ?_⟩
    rintro - (⟨hkind | hkind, -⟩ | hkind) <;> exact nomatch hkind
  | headers hframe _ hopen =>
    subst hframe
    dsimp only
    rw [streamState_openHeaders]
    split
    · next hid =>
      subst hid
      obtain ⟨hreserved, hclosed⟩ := headersStream_spec (hs _) (Http2Frame.headers _).header.isEndStream
      refine ⟨hreserved, fun h => absurd (hopen.symm.trans h) nofun, ?_⟩
      rintro - (⟨-, hend⟩ | hkind) -
      · exact hclosed hend
      exact nomatch hkind
    next hid => exact ⟨hs streamId, fun h => h, fun _ _ h => absurd h.symm hid⟩
  | @data f stream hframe _ hstream hreceive =>
    subst hframe
    have hentry : streamState s (Http2Frame.data f).header.streamId = stream := by
      rw [streamState, hstream, Option.getD_some]
    obtain ⟨hreserved, hclosed⟩ := markRemoteEndStream_spec (hentry ▸ hs _)
    dsimp only
    split
    · rw [streamState_setStreamState]
      split
      · exact ⟨hreserved, fun _ => hclosed, fun _ _ _ => hclosed⟩
      next hid => exact ⟨hs streamId, fun h => h, fun _ _ h => absurd h.symm hid⟩
    next hend =>
    refine ⟨hs streamId, fun h => h, ?_⟩
    rintro - (⟨-, h⟩ | hkind)
    · exact absurd h hend
    exact nomatch hkind
  | rstStream hframe =>
  dsimp only
  rw [streamState_setStreamState]
  split
  · exact ⟨⟨nofun, nofun⟩, fun _ => rfl, fun _ _ _ => rfl⟩
  next hid => exact ⟨hs streamId, fun h => h, fun _ _ h => absurd h.symm hid⟩

theorem not_delivers_of_closed (hkind : frame.kind = .Data ∨ frame.kind = .Headers)
    (hclosed : isRemoteClosed (streamState s frame.header.streamId) = true) :
    ¬ Delivers (dispatch frame s).1 := by
  have hcases := dispatch_cases s frame
  generalize dispatch frame s = r at hcases ⊢
  cases hcases with
  | failed _ hdeliver => exact hdeliver
  | headers _ _ hopen => exact absurd (hopen.symm.trans hclosed) nofun
  | @data _ stream _ _ hstream hreceive =>
    rw [streamState, hstream, Option.getD_some] at hclosed
    simp only [isRemoteClosed, Bool.or_eq_true, decide_eq_true_eq] at hclosed
    rcases hclosed with h | h <;> simp [canReceiveData, h] at hreceive
  | continuation hframe => subst hframe; rcases hkind with hkind | hkind <;> exact nomatch hkind
  | rstStream hframe => subst hframe; rcases hkind with hkind | hkind <;> exact nomatch hkind
  | goAway hframe => subst hframe; rcases hkind with hkind | hkind <;> exact nomatch hkind
  | other hother => exact hkind.elim (absurd · hother.2.1) (absurd · hother.1)

/-! ## Runs -/

theorem run_concat (frames frames' : List Http2Frame) :
    run (frames ++ frames') = frames'.foldl (fun s frame => (dispatch frame s).2) (run frames) :=
  List.foldl_append

theorem run_notReserved (frames : List Http2Frame) (streamId : UInt32) :
    NotReserved (streamState (run frames) streamId) := by
  have hrun : ∀ s : H2DispatcherConnectionState, (∀ streamId, NotReserved (streamState s streamId)) →
      ∀ streamId, NotReserved (streamState
        (frames.foldl (fun s frame => (dispatch frame s).2) s) streamId) := by
    induction frames with
    | nil => exact fun s hs => hs
    | cons frame frames ih =>
    exact fun s hs => ih _ fun streamId => (dispatch_streamState hs frame streamId).1
  exact hrun {} (fun _ => ⟨nofun, nofun⟩) streamId

theorem run_closed
    (h : isRemoteClosed (streamState (run frames) streamId) = true) (later : List Http2Frame) :
    isRemoteClosed (streamState (run (frames ++ later)) streamId) = true := by
  induction later generalizing frames with
  | nil => rwa [List.append_nil]
  | cons frame later ih =>
  have hstep : run (frames ++ [frame]) = (dispatch frame (run frames)).2 := run_concat frames [frame]
  have hnext : isRemoteClosed (streamState (run (frames ++ [frame])) streamId) = true := by
    rw [hstep]
    exact (dispatch_streamState (run_notReserved frames) frame streamId).2.1 h
  have hrest := ih hnext
  rwa [List.append_assoc] at hrest

/-- The dispatcher over every sequence of frames: failures change nothing, a block that is open
admits only its continuation, and an ended stream gets no more DATA or HEADERS. -/
theorem run_protocol (frames : List Http2Frame) :
    let s := run frames
    (∀ frame, (dispatch frame s).1.ok = false → (dispatch frame s).2 = s) ∧
    s.expectingContinuation = (openBlock {} none frames).isSome ∧
    (∀ streamId, openBlock {} none frames = some streamId → s.continuationStreamId = streamId) ∧
    (∀ frame, s.expectingContinuation = true → Delivers (dispatch frame s).1 →
      frame.kind = .Continuation ∧ frame.header.streamId = s.continuationStreamId) ∧
    (∀ before ending after frame, frames = before ++ ending :: after →
      EndsStream ending → Delivers (dispatch ending (run before)).1 →
      frame.kind = .Data ∨ frame.kind = .Headers →
      frame.header.streamId = ending.header.streamId → ¬ Delivers (dispatch frame s).1) := by
  have hinit : KnowsBlock {} none := ⟨rfl, fun _ h => nomatch h⟩
  have hblock : KnowsBlock (run frames) (openBlock {} none frames) := hinit.run frames
  refine ⟨fun frame => dispatch_failed, hblock.expecting, hblock.streamId,
    fun frame => delivers_expecting, ?_⟩
  intro before ending after frame hframes hends hdelivers hkind hid
  have hstep : run (before ++ [ending]) = (dispatch ending (run before)).2 :=
    run_concat before [ending]
  have hclosed : isRemoteClosed (streamState (run (before ++ [ending])) ending.header.streamId) =
      true := by
    rw [hstep]
    exact (dispatch_streamState (run_notReserved before) ending _).2.2 hdelivers hends rfl
  have hlater := run_closed hclosed after
  rw [List.append_assoc, List.singleton_append, ← hframes, ← hid] at hlater
  exact not_delivers_of_closed hkind hlater

end Http2FrameDispatcher

end Galay.Http2
