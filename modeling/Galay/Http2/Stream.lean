import Galay.Http2.Message
import Galay.Http2.Frame

/-!
# Streams (`kernel/http2_stream.h`)

A stream holds pointers to what all streams of a connection share: the send channel, the HPACK
encoder, the connection send window and the channel of retired streams. Here these are a value
`Http2StreamIo` that the operations of a stream take and return. Waiters are left out; the send
channel keeps everything that was ever put into it.
-/

namespace Galay.Http2

/-! ## What is sent -/

/-- An item of the send channel. The nine bytes before the payload of a segmented packet are kept
as the header they encode. -/
inductive Http2OutgoingFrame
  | frame (frame : Http2Frame)
  | bytes (bytes : Bytes)
  | segmented (header : Http2FrameHeader) (payload : Bytes)
  deriving DecidableEq, Repr

/-- The frame on another stream. -/
def Http2Frame.withStreamId (streamId : UInt32) : Http2Frame → Http2Frame
  | .data f => .data { f with header := { f.header with streamId } }
  | .headers f => .headers { f with header := { f.header with streamId } }
  | .priority f => .priority { f with header := { f.header with streamId } }
  | .rstStream f => .rstStream { f with header := { f.header with streamId } }
  | .settings f => .settings { f with header := { f.header with streamId } }
  | .pushPromise f => .pushPromise { f with header := { f.header with streamId } }
  | .ping f => .ping { f with header := { f.header with streamId } }
  | .goAway f => .goAway { f with header := { f.header with streamId } }
  | .windowUpdate f => .windowUpdate { f with header := { f.header with streamId } }
  | .continuation f => .continuation { f with header := { f.header with streamId } }

namespace Http2FrameBuilder

variable (streamId : UInt32)

def dataHeaderBytes (length : Nat) (endStream : Bool) : Http2FrameHeader :=
  { type := .Data, streamId, flags := endFlags endStream false, length := UInt32.ofNat length }

def headersHeaderBytes (length : Nat) (endStream endHeaders : Bool) :
    Http2FrameHeader :=
  { type := .Headers, streamId, flags := endFlags endStream endHeaders
    length := UInt32.ofNat length }

def continuationHeaderBytes (length : Nat) (endHeaders : Bool) :
    Http2FrameHeader :=
  { type := .Continuation, streamId, flags := endFlags false endHeaders
    length := UInt32.ofNat length }

end Http2FrameBuilder

/-- What the streams of a connection share. -/
structure Http2StreamIo where
  encoder : HpackEncoder := {}
  connSendWindow : Int32 := 65535
  sendChannel : List Http2OutgoingFrame := []
  retireStreamChannel : List UInt32 := []

namespace Http2StreamIo

def enqueue (io : Http2StreamIo) (items : List Http2OutgoingFrame) : Http2StreamIo :=
  { io with sendChannel := io.sendChannel ++ items }

def enqueueRetireStream (io : Http2StreamIo) (streamId : UInt32) : Http2StreamIo :=
  if streamId = 0 then io
  else { io with retireStreamChannel := io.retireStreamChannel ++ [streamId] }

end Http2StreamIo

/-! ## The stream -/

namespace Http2StreamEvent

def None : UInt32 := 0
def HeadersReady : UInt32 := 1
def DataArrived : UInt32 := 2
def RequestComplete : UInt32 := 4
def ResponseComplete : UInt32 := 8
def Reset : UInt32 := 16
def WindowUpdated : UInt32 := 32

end Http2StreamEvent

structure PendingDataSend where
  payload : Bytes
  offset : Nat := 0
  endStream : Bool := false
  deriving DecidableEq, Repr

structure Http2Stream where
  streamId : UInt32
  state : Http2StreamState := .Idle
  sendWindow : Int32 := 65535
  recvWindow : Int32 := 65535
  endStreamReceived : Bool := false
  endStreamSent : Bool := false
  headerBlock : Bytes := []
  decodedHeaders : List Http2HeaderField := []
  request : Http2Request := {}
  response : Http2Response := {}
  frameChannel : List (Option Http2Frame) := []
  frameQueueClosed : Bool := false
  frameQueueEnabled : Bool := true
  pendingEvents : UInt32 := Http2StreamEvent.None
  activeQueued : Bool := false
  requestCompleted : Bool := false
  responseCompleted : Bool := false
  weight : UInt8 := 16
  streamDependency : UInt32 := 0
  exclusive : Bool := false
  ioAttached : Bool := false
  maxFrameSize : UInt32 := kDefaultMaxFrameSize
  maxHeaderListSize : UInt32 := kDefaultMaxHeaderListSize
  pendingData : List PendingDataSend := []
  hasRetireCallback : Bool := false
  deriving DecidableEq, Repr

namespace Http2Stream

def create (streamId : UInt32) : Http2Stream := { streamId }

/-- A stream of the pool, made new. -/
def resetForReuse (stream : Http2Stream) (streamId : UInt32) : Http2Stream :=
  { stream with
    streamId
    state := .Idle
    sendWindow := 65535
    recvWindow := 65535
    endStreamReceived := false
    endStreamSent := false
    headerBlock := []
    decodedHeaders := []
    request := {}
    response := {}
    frameChannel := []
    frameQueueClosed := false
    frameQueueEnabled := true
    pendingEvents := Http2StreamEvent.None
    activeQueued := false
    requestCompleted := false
    responseCompleted := false
    weight := 16
    streamDependency := 0
    exclusive := false
    ioAttached := false
    maxFrameSize := kDefaultMaxFrameSize
    maxHeaderListSize := kDefaultMaxHeaderListSize
    pendingData := []
    hasRetireCallback := false }

/-- Nothing of the earlier life of a stream is left. -/
theorem resetForReuse_eq (stream : Http2Stream) (streamId : UInt32) :
    stream.resetForReuse streamId = create streamId := rfl

/-! ## State transitions -/

variable (stream : Http2Stream)

def canReceiveHeaders : Bool :=
  stream.state = .Idle || stream.state = .ReservedRemote || stream.state = .Open ||
    stream.state = .HalfClosedLocal

def canReceiveData : Bool :=
  stream.state = .Open || stream.state = .HalfClosedLocal

/-- The part of the transitions that END_STREAM of the peer makes. -/
def endReceived : Http2Stream :=
  { stream with
    endStreamReceived := true
    state := match stream.state with
      | .Open => .HalfClosedRemote
      | .HalfClosedLocal => .Closed
      | state => state }

/-- The part of the transitions that our END_STREAM makes. -/
def endSent : Http2Stream :=
  { stream with
    endStreamSent := true
    state := match stream.state with
      | .Open => .HalfClosedLocal
      | .HalfClosedRemote => .Closed
      | state => state }

def notifyRetireIfClosed (io : Http2StreamIo) : Http2Stream × Http2StreamIo :=
  if stream.state = .Closed ∧ stream.hasRetireCallback then
    (stream, io.enqueueRetireStream stream.streamId)
  else (stream, io)

variable (endStream : Bool)

def onHeadersReceived (stream : Http2Stream) (io : Http2StreamIo) :
    Http2Stream × Http2StreamIo :=
  let stream := if stream.state = .Idle then { stream with state := .Open } else stream
  let stream := if endStream then stream.endReceived else stream
  stream.notifyRetireIfClosed io

def onDataReceived (stream : Http2Stream) (io : Http2StreamIo) :
    Http2Stream × Http2StreamIo :=
  let stream := if endStream then stream.endReceived else stream
  stream.notifyRetireIfClosed io

def onHeadersSent (stream : Http2Stream) (io : Http2StreamIo) :
    Http2Stream × Http2StreamIo :=
  let stream :=
    if stream.state = .Idle then { stream with state := .Open }
    else if stream.state = .ReservedLocal then { stream with state := .HalfClosedRemote }
    else stream
  let stream := if endStream then stream.endSent else stream
  stream.notifyRetireIfClosed io

def onDataSent (stream : Http2Stream) (io : Http2StreamIo) :
    Http2Stream × Http2StreamIo :=
  let stream := if endStream then stream.endSent else stream
  stream.notifyRetireIfClosed io

variable {endStream}

def onRstStreamReceived (io : Http2StreamIo) : Http2Stream × Http2StreamIo :=
  notifyRetireIfClosed { stream with state := .Closed } io

def onRstStreamSent (io : Http2StreamIo) : Http2Stream × Http2StreamIo :=
  notifyRetireIfClosed { stream with state := .Closed } io

variable {stream}

/-! ## Received data -/

def adjustSendWindow (delta : Int32) (stream : Http2Stream) : Http2Stream :=
  { stream with sendWindow := stream.sendWindow + delta }

def adjustRecvWindow (delta : Int32) (stream : Http2Stream) : Http2Stream :=
  { stream with recvWindow := stream.recvWindow + delta }

def setLimits (maxFrameSize maxHeaderListSize : UInt32) (stream : Http2Stream) : Http2Stream :=
  { stream with maxFrameSize, maxHeaderListSize }

def appendHeaderBlock (data : Bytes) (stream : Http2Stream) : Http2Stream :=
  { stream with headerBlock := stream.headerBlock ++ data }

variable (stream : Http2Stream)

def clearHeaderBlock : Http2Stream := { stream with headerBlock := [] }

def setDecodedHeaders (fields : List Http2HeaderField) (stream : Http2Stream) : Http2Stream :=
  { stream with decodedHeaders := fields }

def consumeDecodedHeadersAsRequest : Http2Stream :=
  { stream with
    request := stream.decodedHeaders.foldl Http2Request.consume stream.request
    decodedHeaders := [] }

def consumeDecodedHeadersAsResponse : Http2Stream :=
  { stream with
    response := stream.decodedHeaders.foldl Http2Response.consume stream.response
    decodedHeaders := [] }

def appendRequestData (data : Bytes) (stream : Http2Stream) : Http2Stream :=
  { stream with request := stream.request.appendBody data }

def appendResponseData (data : Bytes) (stream : Http2Stream) : Http2Stream :=
  { stream with response := { stream.response with body := stream.response.body ++ data } }

def markRequestCompleted : Http2Stream :=
  { stream with requestCompleted := true }

def markResponseCompleted : Http2Stream :=
  { stream with responseCompleted := true }

def setPriority (exclusive : Bool) (dependency : UInt32) (weight : UInt8) (stream : Http2Stream) :
    Http2Stream :=
  { stream with exclusive, streamDependency := dependency, weight }

def pushFrame (frame : Http2Frame) (stream : Http2Stream) : Http2Stream :=
  if stream.frameQueueEnabled then
    { stream with frameChannel := stream.frameChannel ++ [some frame] }
  else stream

def closeFrameQueue : Http2Stream :=
  if stream.frameQueueClosed then stream
  else
    { stream with
      frameQueueClosed := true
      pendingData := []
      requestCompleted := true
      responseCompleted := true
      frameChannel := stream.frameChannel ++ [none] }

def addPendingEvents (events : UInt32) (stream : Http2Stream) : Http2Stream :=
  { stream with pendingEvents := stream.pendingEvents ||| events }

/-- The stream is in the active batch with these events. -/
def markActive (events : UInt32) (stream : Http2Stream) : Http2Stream :=
  { stream.addPendingEvents events with activeQueued := true }

/-- What the application takes from a stream of the active batch. -/
def takeEvents : UInt32 × Http2Stream :=
  (stream.pendingEvents, { stream with pendingEvents := Http2StreamEvent.None, activeQueued := false })

variable {stream}

/-! ## Sending DATA -/

def normalizeMaxFrameSize (maxFrameSize : UInt32) : UInt32 :=
  if maxFrameSize < kDefaultMaxFrameSize then kDefaultMaxFrameSize else min maxFrameSize kMaxFrameSize

/-- The positive part of a window. -/
def windowSize (window : Int32) : Nat := window.toInt.toNat

def availableDataChunkSize (pending : PendingDataSend) (stream : Http2Stream) (io : Http2StreamIo) :
    Nat :=
  min (pending.payload.length - pending.offset) (min stream.maxFrameSize.toNat
    (min (windowSize stream.sendWindow) (windowSize io.connSendWindow)))

def consumeDataSendWindow (bytes : Nat) (stream : Http2Stream) (io : Http2StreamIo) :
    Http2Stream × Http2StreamIo :=
  ({ stream with sendWindow := stream.sendWindow - Int32.ofNat bytes },
    { io with connSendWindow := io.connSendWindow - Int32.ofNat bytes })

/-- One frame of the front of the queue: what is left of it (`none` when it is complete), or
`none` when it is blocked. -/
def flushPendingDataFront (pending : PendingDataSend) (stream : Http2Stream) (io : Http2StreamIo) :
    Option (Option PendingDataSend × Http2Stream × Http2StreamIo) :=
  if pending.payload.length = 0 then
    let header := Http2FrameBuilder.dataHeaderBytes stream.streamId 0 pending.endStream
    let (stream, io) := if pending.endStream then stream.onDataSent true io else (stream, io)
    some (none, stream, io.enqueue [.segmented header []])
  else
    let chunkSize := stream.availableDataChunkSize pending io
    if chunkSize = 0 then none
    else
      let finalChunk : Bool := pending.offset + chunkSize = pending.payload.length
      let frameEndStream := pending.endStream && finalChunk
      let header := Http2FrameBuilder.dataHeaderBytes stream.streamId chunkSize frameEndStream
      let io := io.enqueue
        [.segmented header ((pending.payload.drop pending.offset).take chunkSize)]
      let (stream, io) := stream.consumeDataSendWindow chunkSize io
      let (stream, io) := if frameEndStream then stream.onDataSent true io else (stream, io)
      some (if finalChunk then none else some { pending with offset := pending.offset + chunkSize },
        stream, io)

/-- The frames of the front of the queue, until it is complete or blocked. Each round but the last
sends a byte. -/
def flushPendingDataItem : (rounds : Nat) → PendingDataSend → Http2Stream → Http2StreamIo →
    Option PendingDataSend × Http2Stream × Http2StreamIo
  | 0, pending, stream, io => (some pending, stream, io)
  | rounds + 1, pending, stream, io =>
    match stream.flushPendingDataFront pending io with
    | none => (some pending, stream, io)
    | some (none, stream, io) => (none, stream, io)
    | some (some pending, stream, io) => flushPendingDataItem rounds pending stream io

/-- The loop of `flushPendingData` over the queue. -/
def flushPendingDataQueue : List PendingDataSend → Http2Stream → Http2StreamIo →
    List PendingDataSend × Http2Stream × Http2StreamIo
  | [], stream, io => ([], stream, io)
  | pending :: queue, stream, io =>
    match stream.flushPendingDataItem (pending.payload.length + 1) pending io with
    | (some pending, stream, io) => (pending :: queue, stream, io)
    | (none, stream, io) => flushPendingDataQueue queue stream io

def flushPendingData (stream : Http2Stream) (io : Http2StreamIo) : Http2Stream × Http2StreamIo :=
  if stream.ioAttached then
    let (queue, stream, io) := flushPendingDataQueue stream.pendingData stream io
    ({ stream with pendingData := queue }, io)
  else (stream, io)

def queueDataForSend (payload : Bytes) (endStream : Bool) (stream : Http2Stream)
    (io : Http2StreamIo) : Http2Stream × Http2StreamIo :=
  if stream.ioAttached then
    flushPendingData { stream with pendingData := stream.pendingData ++ [{ payload, endStream }] } io
  else (stream, io)

def attachIo (maxFrameSize maxHeaderListSize : UInt32) (stream : Http2Stream) (io : Http2StreamIo) :
    Http2Stream × Http2StreamIo :=
  flushPendingData
    { stream with
      maxFrameSize := normalizeMaxFrameSize maxFrameSize
      maxHeaderListSize
      ioAttached := true } io

/-! ## Sending HEADERS -/

/-- The HEADERS frame and the CONTINUATION frames of a block that is not empty. -/
def headerFrames (streamId : UInt32) (maxFrameSize : Nat) (endStream endHeaders : Bool) :
    (rounds : Nat) → (first : Bool) → (rest : Bytes) → List Http2OutgoingFrame
  | 0, _, _ => []
  | rounds + 1, first, rest =>
    if rest = [] then []
    else
      let chunkSize := min maxFrameSize rest.length
      let final : Bool := chunkSize = rest.length
      let header :=
        if first then
          Http2FrameBuilder.headersHeaderBytes streamId chunkSize endStream (final && endHeaders)
        else Http2FrameBuilder.continuationHeaderBytes streamId chunkSize (final && endHeaders)
      .segmented header (rest.take chunkSize) ::
        headerFrames streamId maxFrameSize endStream endHeaders rounds false (rest.drop chunkSize)

def sendEncodedHeadersInternal (headerBlock : Bytes) (endStream endHeaders : Bool)
    (stream : Http2Stream) (io : Http2StreamIo) : Http2Stream × Http2StreamIo :=
  if !stream.ioAttached || headerBlock.length > stream.maxHeaderListSize.toNat then (stream, io)
  else if headerBlock = [] then
    stream.onHeadersSent endStream (io.enqueue [.segmented
      (Http2FrameBuilder.headersHeaderBytes stream.streamId 0 endStream endHeaders) []])
  else
    stream.onHeadersSent endStream (io.enqueue (headerFrames stream.streamId
      stream.maxFrameSize.toNat endStream endHeaders headerBlock.length true headerBlock))

def sendHeadersInternal (headers : List Http2HeaderField) (endStream endHeaders : Bool)
    (stream : Http2Stream) (io : Http2StreamIo) : Http2Stream × Http2StreamIo :=
  if !stream.ioAttached then (stream, io)
  else
    let (headerBlock, encoder) := io.encoder.encode headers
    stream.sendEncodedHeadersInternal headerBlock endStream endHeaders { io with encoder }

def sendEncodedHeadersAndDataInternal (headerBlock data : Bytes) (endHeaders : Bool)
    (stream : Http2Stream) (io : Http2StreamIo) : Http2Stream × Http2StreamIo :=
  if !stream.ioAttached || headerBlock.length > stream.maxHeaderListSize.toNat then (stream, io)
  else
    let (stream, io) := stream.sendEncodedHeadersInternal headerBlock data.isEmpty endHeaders io
    if data.isEmpty then (stream, io) else stream.queueDataForSend data true io

/-- Data in pieces, `endStream` with the last. -/
def queueChunks (endStream : Bool) : List Bytes → Http2Stream → Http2StreamIo →
    Http2Stream × Http2StreamIo
  | [], stream, io => (stream, io)
  | chunk :: chunks, stream, io =>
    let (stream, io) := stream.queueDataForSend chunk (endStream && chunks.isEmpty) io
    queueChunks endStream chunks stream io

def sendEncodedHeadersAndDataChunksInternal (headerBlock : Bytes) (chunks : List Bytes)
    (endHeaders : Bool) (stream : Http2Stream) (io : Http2StreamIo) : Http2Stream × Http2StreamIo :=
  match chunks with
  | [data] => stream.sendEncodedHeadersAndDataInternal headerBlock data endHeaders io
  | chunks =>
    if !stream.ioAttached || headerBlock.length > stream.maxHeaderListSize.toNat then (stream, io)
    else
      let (stream, io) := stream.sendEncodedHeadersInternal headerBlock chunks.isEmpty endHeaders io
      queueChunks true chunks stream io

def sendHeadersAndDataInternal (headers : List Http2HeaderField) (data : Bytes) (endHeaders : Bool)
    (stream : Http2Stream) (io : Http2StreamIo) : Http2Stream × Http2StreamIo :=
  if !stream.ioAttached then (stream, io)
  else
    let (headerBlock, encoder) := io.encoder.encode headers
    stream.sendEncodedHeadersAndDataInternal headerBlock data endHeaders { io with encoder }

def sendHeadersAndDataChunksInternal (headers : List Http2HeaderField) (chunks : List Bytes)
    (endHeaders : Bool) (stream : Http2Stream) (io : Http2StreamIo) : Http2Stream × Http2StreamIo :=
  if !stream.ioAttached then (stream, io)
  else
    let (headerBlock, encoder) := io.encoder.encode headers
    stream.sendEncodedHeadersAndDataChunksInternal headerBlock chunks endHeaders { io with encoder }

/-! ## The other sends -/

def sendDataBatchInternal (chunks : List Bytes) (endStream : Bool) (stream : Http2Stream)
    (io : Http2StreamIo) : Http2Stream × Http2StreamIo :=
  if chunks = [] then
    if endStream then stream.queueDataForSend [] true io else (stream, io)
  else queueChunks endStream chunks stream io

/-- A single chunk goes the way of `sendData`, which is the same. -/
def sendDataChunksInternal (chunks : List Bytes) (endStream : Bool) (stream : Http2Stream)
    (io : Http2StreamIo) : Http2Stream × Http2StreamIo :=
  match chunks with
  | [data] => stream.queueDataForSend data endStream io
  | chunks => stream.sendDataBatchInternal chunks endStream io

def sendRstStreamInternal (error : Http2ErrorCode) (stream : Http2Stream) (io : Http2StreamIo) :
    Http2Stream × Http2StreamIo :=
  if !stream.ioAttached then (stream, io)
  else
    let (stream, io) := stream.onRstStreamSent io
    (stream, io.enqueue [.bytes (Http2FrameBuilder.rstStreamBytes stream.streamId error)])

def sendWindowUpdate (increment : UInt32) (stream : Http2Stream) (io : Http2StreamIo) :
    Http2Stream × Http2StreamIo :=
  if !stream.ioAttached then (stream, io)
  else (stream, io.enqueue [.frame (.windowUpdate
    { header := { type := .WindowUpdate, streamId := stream.streamId }
      windowSizeIncrement := increment })])

/-- One frame of `sendFrameBatchInternal`; DATA that does not fit the stream window is dropped. -/
def sendOneFrame (frame : Http2Frame) (stream : Http2Stream) (io : Http2StreamIo) :
    List Http2OutgoingFrame × Http2Stream × Http2StreamIo :=
  let frame := frame.withStreamId stream.streamId
  match frame with
  | .headers headers => ([.frame frame], stream.onHeadersSent headers.header.isEndStream io)
  | .data data =>
    let size := Int32.ofNat data.data.length
    if stream.sendWindow < size then ([], stream, io)
    else
      let stream := { stream with sendWindow := stream.sendWindow - size }
      ([.frame frame], if data.header.isEndStream then stream.onDataSent true io else (stream, io))
  | .rstStream _ => ([.frame frame], stream.onRstStreamSent io)
  | _ => ([.frame frame], stream, io)

def sendFrameList : List Http2Frame → Http2Stream → Http2StreamIo →
    List Http2OutgoingFrame × Http2Stream × Http2StreamIo
  | [], stream, io => ([], stream, io)
  | frame :: frames, stream, io =>
    let (out, stream, io) := sendOneFrame frame stream io
    let (rest, stream, io) := sendFrameList frames stream io
    (out ++ rest, stream, io)

def sendFrameBatchInternal (frames : List Http2Frame) (stream : Http2Stream) (io : Http2StreamIo) :
    Http2Stream × Http2StreamIo :=
  if !stream.ioAttached then (stream, io)
  else
    let (outgoing, stream, io) := sendFrameList frames stream io
    (stream, io.enqueue outgoing)

end Http2Stream

/-! ## The pool -/

/-- The streams that wait for reuse. -/
abbrev Http2StreamPool := List Http2Stream

def Http2StreamPool.acquire (pool : Http2StreamPool) (streamId : UInt32) :
    Http2Stream × Http2StreamPool :=
  match pool.getLast? with
  | some stream => (stream.resetForReuse streamId, pool.dropLast)
  | none => (.create streamId, pool)

theorem Http2StreamPool.acquire_stream (pool : Http2StreamPool) (streamId : UInt32) :
    (pool.acquire streamId).1 = .create streamId := by
  unfold acquire
  split
  · next stream _ => exact stream.resetForReuse_eq streamId
  rfl

end Galay.Http2
