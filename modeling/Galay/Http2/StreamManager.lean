import Galay.Http2.Conn

/-!
# The stream manager (`kernel/stream_manager.h`)

Streams are named by their identifiers: where the source holds a pointer to a stream of the
connection, the model looks the stream up again. A stream that leaves the table is kept in
`detached` as long as the application may use it. The file system is the argument `StaticFiles` of
the steps that ask it. Waiters, timers and the coroutines themselves are left out: a run is a list
of events, one for each thing that the reader, the workers or the application do.
-/

namespace Galay.Http2

/-! ## Frame views -/

/-- The bytes of one complete frame with its header. -/
structure Http2RawFrameView where
  bytes : Bytes
  complete : bytes.length =
    kHttp2FrameHeaderLength + (Http2FrameHeader.deserialize bytes).length.toNat

namespace Http2RawFrameView

variable (view : Http2RawFrameView)

def header : Http2FrameHeader := .deserialize view.bytes

def payload : Bytes := view.bytes.drop kHttp2FrameHeaderLength

def streamId (view : Http2RawFrameView) : UInt32 := view.header.streamId

def isHeaders : Bool := view.header.type = .Headers

def isData : Bool := view.header.type = .Data

def isContinuation : Bool := view.header.type = .Continuation

def isConnectionFrame : Bool :=
  view.header.streamId = 0 &&
    (view.header.type = .Settings || view.header.type = .Ping || view.header.type = .GoAway ||
      view.header.type = .WindowUpdate)

def endStream : Bool := view.header.hasFlag Http2FrameFlags.kEndStream

def endHeaders : Bool := view.header.hasFlag Http2FrameFlags.kEndHeaders

end Http2RawFrameView

/-! ## The state -/

inductive PendingAction
  | sendGoaway (error : Http2ErrorCode)
  | sendRstStream (streamId : UInt32) (error : Http2ErrorCode)
  | sendWindowUpdate (streamId : UInt32) (increment : UInt32)
  deriving DecidableEq, Repr

/-- What the file caches and the runtime answer while a frame is handled. -/
structure StaticFiles where
  lookupFast200 : (mountPrefix path : Bytes) → Option H2StaticFileFastLookup := fun _ _ => none
  lookup : (mountPrefix : Bytes) → H2StaticFileRequest → H2StaticFileLookup := fun _ _ => {}
  spawnBlocking : Bool := true

/-- A read of a file body that a worker does. -/
structure StaticFileBodyRead where
  streamId : UInt32
  headerBlock : Bytes
  bodyCacheSlot : Bool
  filePath : Bytes
  offset : Nat
  length : Nat
  frameSize : Nat
  deriving DecidableEq, Repr

structure Http2StreamManager where
  conn : Http2Conn := {}
  io : Http2StreamIo := {}
  activeConnMode : Bool := false
  rejectNewStreams : Bool := false
  nextLocalStreamId : UInt32 := 0
  hotStream : Option UInt32 := none
  pendingActions : List PendingAction := []
  staticResponseBatch : List Http2OutgoingFrame := []
  staticFileReads : List StaticFileBodyRead := []
  activeBatch : List UInt32 := []
  activeStreamMailbox : List UInt32 := []
  pendingSpawns : List UInt32 := []
  streamPool : Http2StreamPool := []
  detached : List Http2Stream := []
  waitingPingAck : Bool := false
  lastPingPayload : PingData := zeroPing
  exitLoop : Bool := false

namespace Http2StreamManager

/-! ## Streams of the table -/

variable (s : Http2StreamManager)

variable (streamId : UInt32)

/-- Run an operation of a stream of the table. -/
def onStream (op : Http2Stream → Http2StreamIo → Http2Stream × Http2StreamIo) : Http2StreamManager:=
  match s.conn.getStream streamId with
  | none => s
  | some stream =>
    let (stream, io) := op stream s.io
    { s with conn := s.conn.setStream stream, io }

def modifyStream (f : Http2Stream → Http2Stream) :
    Http2StreamManager :=
  s.onStream streamId fun stream io => (f stream, io)

def mapStreams (f : Http2Stream → Http2Stream) : Http2StreamManager :=
  { s with conn := { s.conn with streams := s.conn.streams.map f } }

def removeStream : Http2StreamManager :=
  { s with
    conn := { s.conn with streams := s.conn.streams.filter (·.streamId ≠ streamId) }
    detached := s.detached ++ s.conn.streams.filter (·.streamId = streamId) }

def clearHotStream : Http2StreamManager :=
  if s.hotStream = some streamId then { s with hotStream := none } else s

def rememberHotStream : Http2StreamManager :=
  if (s.conn.getStream streamId).isNone || !s.activeConnMode || s.conn.isClient then s
  else { s with hotStream := some streamId }

def enqueueRetireStream (s : Http2StreamManager) (streamId : UInt32) : Http2StreamManager :=
  { s with io := s.io.enqueueRetireStream streamId }

def drainRetiredStreams : Http2StreamManager :=
  s.io.retireStreamChannel.foldl (fun s streamId => (s.clearHotStream streamId).removeStream streamId)
    { s with io := { s.io with retireStreamChannel := [] } }

/-- The part of `attachStreamIO` that is about the stream. -/
def attachOp (stream : Http2Stream) (io : Http2StreamIo) :
    Http2Stream × Http2StreamIo :=
  if stream.ioAttached then (stream, io)
  else
    let (stream, io) := stream.attachIo s.conn.peerSettings.maxFrameSize
      s.conn.peerSettings.maxHeaderListSize io
    ({ stream with hasRetireCallback := s.activeConnMode && !s.conn.isClient }, io)

def attachStreamIo : Http2StreamManager :=
  s.onStream streamId s.attachOp

/-- `Http2Conn::createStream` with a new stream, or one of the pool. -/
def createStream : Http2StreamManager :=
  let (stream, streamPool) :=
    if s.activeConnMode && !s.conn.isClient then s.streamPool.acquire streamId
    else (.create streamId, s.streamPool)
  if (s.conn.getStream streamId).isSome then { s with streamPool := streamPool }
  else
    { s with
      streamPool
      conn := { s.conn with streams := s.conn.streams ++ [stream] } }

def createStreamInternal : Http2StreamManager :=
  ((s.drainRetiredStreams.createStream streamId).attachStreamIo streamId).rememberHotStream streamId

def newStream : Http2StreamManager :=
  if (s.conn.getStream streamId).isSome then s.attachStreamIo streamId
  else s.createStreamInternal streamId

def allocateStream : Http2StreamManager :=
  newStream { s with nextLocalStreamId := s.nextLocalStreamId + 2 } s.nextLocalStreamId

/-- The stream is then looked up in the table; the hot stream is one of the table. -/
def findAttachedStream : Http2StreamManager :=
  if s.hotStream = some streamId then s
  else (s.attachStreamIo streamId).rememberHotStream streamId

variable {streamId}

variable {s}

/-! ## Actions and deliveries -/

variable (s : Http2StreamManager)

def enqueueAction (action : PendingAction) : Http2StreamManager :=
  { s with pendingActions := s.pendingActions ++ [action] }

def enqueueGoawayAction (error : Http2ErrorCode) : Http2StreamManager :=
  s.enqueueAction (.sendGoaway error)

variable (streamId : UInt32)

def enqueueRstStreamAction (error : Http2ErrorCode) :
    Http2StreamManager :=
  s.enqueueAction (.sendRstStream streamId error)

def enqueueWindowUpdateAction (increment : UInt32) :
    Http2StreamManager :=
  s.enqueueAction (.sendWindowUpdate streamId increment)

def enqueueOutgoing (items : List Http2OutgoingFrame) :
    Http2StreamManager :=
  { s with io := s.io.enqueue items }

def enqueueSendFrame (frame : Http2Frame) : Http2StreamManager :=
  s.enqueueOutgoing [.frame frame]

def enqueueGoaway (error : Http2ErrorCode) (debug : Bytes := [])
    (lastStreamId : Option UInt32 := none) : Http2StreamManager :=
  let last := lastStreamId.getD s.conn.lastPeerStreamId
  enqueueSendFrame { s with conn := s.conn.markGoawaySent last error debug }
    (.goAway { header := { type := .GoAway }
               lastStreamId := last, errorCode := error.code, debugData := debug })

/-- The loop in the reader is left, with a GOAWAY. -/
def stopReader (error : Http2ErrorCode) : Http2StreamManager :=
  { s.enqueueGoaway error with exitLoop := true }

def queueStreamHandler : Http2StreamManager :=
  { s with pendingSpawns := s.pendingSpawns ++ [streamId] }

/-- `Http2ActiveStreamBatch::mark`. -/
def markStreamActive (events : UInt32) :
    Http2StreamManager :=
  if !s.activeConnMode then s
  else
    match s.conn.getStream streamId with
    | none => s
    | some stream =>
      let s := s.modifyStream streamId (·.markActive events)
      if stream.activeQueued then s else { s with activeBatch := s.activeBatch ++ [streamId] }

def pushStreamFrameIfNeeded (frame : Http2Frame) :
    Http2StreamManager :=
  if s.activeConnMode then s else s.modifyStream streamId (·.pushFrame frame)

def tryRetireClientStream : Http2StreamManager :=
  match s.conn.getStream streamId with
  | none => s
  | some stream =>
    if s.conn.isClient && stream.responseCompleted && stream.state = .Closed then
      s.removeStream streamId
    else s

variable {streamId}

def flushActiveStreams : Http2StreamManager :=
  if !s.activeConnMode then s
  else
    { s with activeBatch := [], activeStreamMailbox := s.activeStreamMailbox ++ s.activeBatch }

def flushStaticResponseBatch : Http2StreamManager :=
  { s.enqueueOutgoing s.staticResponseBatch with staticResponseBatch := [] }

def processAction : PendingAction → Http2StreamManager
  | .sendGoaway error => s.enqueueGoaway error
  | .sendRstStream streamId error =>
    (s.onStream streamId Http2Stream.onRstStreamSent).enqueueOutgoing
      [.bytes (Http2FrameBuilder.rstStreamBytes streamId error)]
  | .sendWindowUpdate streamId increment =>
    s.enqueueSendFrame (.windowUpdate
      { header := { type := .WindowUpdate, streamId }, windowSizeIncrement := increment })

def processPendingActions : Http2StreamManager :=
  s.pendingActions.foldl processAction { s with pendingActions := [] }

variable {s}

/-! ## Connection frames -/

def setExpectingContinuation (s : Http2StreamManager) (expecting : Bool) (streamId : UInt32) :
    Http2StreamManager :=
  { s with conn := s.conn.setExpectingContinuation expecting streamId }

/-- The loop of `handleConnectionFrame` over one stream: its limits are those of the peer, its window
moves by `delta`, and what the windows allow is sent. -/
def refreshStream (delta : Int32) (s : Http2StreamManager) (streamId : UInt32) : Http2StreamManager :=
  s.onStream streamId fun stream io =>
    ((stream.adjustSendWindow delta).setLimits s.conn.peerSettings.maxFrameSize
      s.conn.peerSettings.maxHeaderListSize).flushPendingData io

variable (s : Http2StreamManager)

def refreshStreams (delta : Int32) : Http2StreamManager :=
  (s.conn.streams.map (·.streamId)).foldl (refreshStream delta) s

/-- Whether an initial window that changes by `delta` leaves the range of a stream window. -/
def windowOverflow (delta : Int) (stream : Http2Stream) : Bool :=
  stream.sendWindow.toInt + delta > kMaxStreamId.toNat || stream.sendWindow.toInt + delta < -2 ^ 31

def applyPeerSettings (settings : Http2Settings) : Http2StreamManager :=
  { s with
    conn := { s.conn with peerSettings := settings }
    io := { s.io with encoder := s.io.encoder.setMaxTableSize settings.headerTableSize.toNat } }

def handleSettingsFrame (frame : Http2SettingsFrame) :
    Http2StreamManager :=
  let error := Http2Conn.validateSettingsFrame frame
  if error ≠ .NoError then s.enqueueGoawayAction error
  else if frame.header.isAck then { s with conn := { s.conn with settingsAckPending := false } }
  else
    match s.conn.peerSettings.applySettings frame with
    | .error error => s.enqueueGoawayAction error
    | .ok settings =>
      let delta : Int :=
        settings.initialWindowSize.toNat - s.conn.peerSettings.initialWindowSize.toNat
      if delta ≠ 0 ∧ s.conn.streams.any (windowOverflow delta) then
        s.enqueueGoawayAction .FlowControlError
      else
        ((s.applyPeerSettings settings).refreshStreams (Int32.ofInt delta)).enqueueSendFrame (.settings
          { header := { type := .Settings, flags := Http2FrameFlags.kAck } })

def handlePingFrame (frame : Http2PingFrame) : Http2StreamManager :=
  if frame.header.streamId ≠ 0 then s.enqueueGoawayAction .ProtocolError
  else if !frame.header.isAck then
    s.enqueueSendFrame (.ping
      { header := { type := .Ping, flags := Http2FrameFlags.kAck }, opaqueData := frame.opaqueData })
  else if s.waitingPingAck ∧ frame.opaqueData = s.lastPingPayload then
    { s with waitingPingAck := false }
  else s

def handleGoAwayFrame (frame : Http2GoAwayFrame) : Http2StreamManager :=
  let s := { s with
    rejectNewStreams := true
    conn := s.conn.markGoawayReceived frame.lastStreamId frame.errorCode frame.debugData }
  if s.conn.isClient then
    s.mapStreams fun stream =>
      if stream.streamId ≤ frame.lastStreamId then stream else stream.closeFrameQueue
  else s

def handleConnectionWindowUpdate (frame : Http2WindowUpdateFrame) :
    Http2StreamManager :=
  let increment := frame.windowSizeIncrement
  if increment = 0 then s.enqueueGoawayAction .ProtocolError
  else if s.io.connSendWindow.toInt + increment.toNat > kMaxStreamId.toNat then
    s.enqueueGoawayAction .FlowControlError
  else
    refreshStreams
      { s with io := { s.io with connSendWindow := s.io.connSendWindow + increment.toInt32 } } 0

def handleConnectionFrame : Http2Frame → Http2StreamManager
  | .settings frame => s.handleSettingsFrame frame
  | .ping frame => s.handlePingFrame frame
  | .goAway frame => s.handleGoAwayFrame frame
  | .windowUpdate frame => s.handleConnectionWindowUpdate frame
  | _ => s

end Http2StreamManager

end Galay.Http2
