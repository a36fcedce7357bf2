import Galay.Http2.StreamManager

/-!
# Frames of streams (`kernel/stream_manager.h`)

Static responses, the handlers of the stream frames on the raw and on the parsed path, the step of
the reader, and the runs of a stream manager. Functions that return `bool` and change nothing when
they return `false` are `Option`s here.
-/

namespace Galay.Http2

namespace Http2StreamManager

/-! ## Static responses -/

variable (s : Http2StreamManager)

def findStaticRoute (path : Bytes) : Option H2StaticRoute :=
  s.conn.runtimeConfig.staticRoutes.find? (·.path = path)

def findStaticResponseRoute (method path : Bytes) : Option H2StaticRoute :=
  let isHead : Bool := method = ascii "HEAD"
  if method = ascii "GET" || isHead then
    (s.findStaticRoute path).filter fun route => !isHead || route.response.allowHead
  else none

def canSendStaticBodyNow (response : H2StaticResponse) : Bool :=
  response.body = [] ||
    (response.body.length ≤ s.conn.peerSettings.maxFrameSize.toNat &&
      response.body.length ≤ s.conn.peerSettings.initialWindowSize.toNat)

def staticHeaderBlock (route : H2StaticRoute) : Bytes :=
  route.encodedHeaders.getD (encodeH2StaticResponseHeaders route.response)

def appendStaticResponse (frames : List Http2OutgoingFrame) :
    Http2StreamManager :=
  { s with staticResponseBatch := s.staticResponseBatch ++ frames }

/-- The static response to a stream that is not in the table. -/
def trySendStaticResponse (streamId : UInt32) (method path : Bytes) :
    Option Http2StreamManager :=
  match s.findStaticResponseRoute method path with
  | none => none
  | some route =>
    if !s.canSendStaticBodyNow route.response then none
    else
      let payload := staticHeaderBlock route
      let headersEndStream : Bool := method = ascii "HEAD" || route.response.body = []
      let header :=
        .segmented (Http2FrameBuilder.headersHeaderBytes streamId payload.length headersEndStream
          true) payload
      if headersEndStream then some (s.appendStaticResponse [header])
      else
        let body := route.sharedBody.getD route.response.body
        some (s.appendStaticResponse [header,
          .segmented (Http2FrameBuilder.dataHeaderBytes streamId body.length true) body])

/-- The static response to the request of a stream of the table. -/
def trySendStreamStaticResponse (streamId : UInt32) :
    Option Http2StreamManager :=
  match s.conn.getStream streamId with
  | none => none
  | some stream =>
    if s.conn.isClient || !stream.requestCompleted then none
    else
      match s.findStaticResponseRoute stream.request.method stream.request.path with
      | none => none
      | some route =>
        if !s.canSendStaticBodyNow route.response then none
        else
          let headerBlock := staticHeaderBlock route
          if stream.request.method = ascii "HEAD" || route.response.body = [] then
            some (s.onStream streamId (·.sendEncodedHeadersInternal headerBlock true true))
          else
            some (s.onStream streamId
              (·.sendEncodedHeadersAndDataInternal headerBlock route.response.body true))

variable {s}

/-! ## Static files -/

def isStaticFileMethod (method : Bytes) : Bool := method = ascii "GET" || method = ascii "HEAD"

variable (s : Http2StreamManager)

/-- The mount with the longest prefix, the first of these. -/
def findStaticFileMount (path : Bytes) : Option H2StaticFileMount :=
  s.conn.runtimeConfig.staticFileMounts.foldl (fun best mount =>
    if !H2StaticFileMount.pathStartsWithMount path mount.mountPrefix then best
    else
      match best with
      | none => some mount
      | some other =>
        if mount.mountPrefix.length > other.mountPrefix.length then some mount else best) none

def canSendStaticFileBodyNow (length : Nat) : Bool :=
  length = 0 ||
    (length : Int) ≤ min s.io.connSendWindow.toInt s.conn.peerSettings.initialWindowSize.toNat

/-- Pieces of at most `size` bytes. -/
def splitChunks (size : Nat) : (rounds : Nat) → Bytes → List Bytes
  | 0, _ => []
  | rounds + 1, body =>
    if body = [] then []
    else body.take size :: splitChunks size rounds (body.drop size)

/-- DATA frames, the last with END_STREAM. -/
def dataFrames (streamId : UInt32) : List Bytes → List Http2OutgoingFrame
  | [] => []
  | chunk :: chunks =>
    .segmented (Http2FrameBuilder.dataHeaderBytes streamId chunk.length chunks.isEmpty) chunk ::
      dataFrames streamId chunks

def staticFrameSize : Nat := max s.conn.peerSettings.maxFrameSize.toNat 1

def debitConnSendWindow (bytes : Nat) : Http2StreamManager :=
  { s with io := { s.io with connSendWindow := s.io.connSendWindow - Int32.ofNat bytes } }

def appendStaticFileSharedDataFrames (streamId : UInt32) (body : Bytes) :
    Http2StreamManager :=
  (s.appendStaticResponse (dataFrames streamId (splitChunks s.staticFrameSize body.length body))
    ).debitConnSendWindow body.length

variable (files : StaticFiles)

variable (streamId : UInt32)

/-- The credit for the body is taken before the worker reads; it is given back at once when the
worker cannot be started. -/
def scheduleStaticFileBodyRead
    (headerBlock : Bytes) (bodyCacheSlot : Bool) (filePath : Bytes) (offset length : Nat) :
    Option Http2StreamManager :=
  if length = 0 ∨ length > 2 ^ 31 - 1 ∨ !files.spawnBlocking then none
  else
    let s := s.debitConnSendWindow length
    some { s with
      staticFileReads := s.staticFileReads ++
        [{ streamId, headerBlock, bodyCacheSlot, filePath, offset, length
           frameSize := s.staticFrameSize }] }

/-- The headers of a file and its body, which is in the cache or is read by a worker. -/
def sendStaticFile
    (headerBlock : Bytes) (hasBody : Bool) (body : Option Bytes) (bodyCacheable : Bool)
    (filePath : Bytes) (offset length : Nat) : Option Http2StreamManager :=
  if hasBody && body.isNone then
    s.scheduleStaticFileBodyRead files streamId headerBlock bodyCacheable filePath offset length
  else
    let s := s.appendStaticResponse [.segmented
      (Http2FrameBuilder.headersHeaderBytes streamId headerBlock.length (!hasBody) true) headerBlock]
    match body with
    | some body => some (if hasBody then s.appendStaticFileSharedDataFrames streamId body else s)
    | none => some s

def sendStaticFileLookup
    (method : Bytes) (lookup : H2StaticFileLookup) : Option Http2StreamManager :=
  let length := staticFileContentLength lookup.headers
  let hasBody : Bool :=
    method ≠ ascii "HEAD" && length > 0 && lookup.status ≠ 304 && lookup.status ≠ 416
  if hasBody && !s.canSendStaticFileBodyNow length then none
  else
    let headerBlock :=
      lookup.encodedHeaders.getD (encodeH2StaticFileHeaders lookup.status lookup.headers)
    let offset := if lookup.status = 206 then lookup.rangeStart else 0
    s.sendStaticFile files streamId headerBlock hasBody lookup.body lookup.bodyCacheable
      lookup.filePath offset length

def sendStaticFileFastLookup
    (method : Bytes) (lookup : H2StaticFileFastLookup) : Option Http2StreamManager :=
  match lookup.encodedHeaders with
  | none => none
  | some headerBlock =>
    let hasBody : Bool := method ≠ ascii "HEAD" && lookup.contentLength > 0
    if hasBody && !s.canSendStaticFileBodyNow lookup.contentLength then none
    else
      s.sendStaticFile files streamId headerBlock hasBody lookup.body lookup.bodyCacheable
        lookup.filePath 0 lookup.contentLength

def trySendStaticFile (method path ifNoneMatch range : Bytes) : Option Http2StreamManager:=
  if !isStaticFileMethod method then none
  else
    match s.findStaticFileMount path with
    | none => none
    | some mount =>
      if !mount.hasCache then none
      else
        let mountedPath := H2StaticFileMount.mountedStaticFilePath path mount
        let fast :=
          if ifNoneMatch = [] ∧ range = [] then files.lookupFast200 mount.mountPrefix mountedPath
          else none
        match fast with
        | some lookup => s.sendStaticFileFastLookup files streamId method lookup
        | none =>
          s.sendStaticFileLookup files streamId method
            (files.lookup mount.mountPrefix { path := mountedPath, ifNoneMatch, range })

def trySendStreamStaticFile :
    Option Http2StreamManager :=
  match s.conn.getStream streamId with
  | none => none
  | some stream =>
    if s.conn.isClient || !stream.requestCompleted then none
    else
      s.trySendStaticFile files streamId stream.request.method stream.request.path
        (stream.request.getHeader (ascii "if-none-match")) (stream.request.getHeader (ascii "range"))

variable {streamId}

variable {files}

/-- The pieces that a worker reads; `none` for a file that cannot be read. -/
def readStaticFileChunksBlocking (file : Option Bytes) (offset length frameSize : Nat) :
    Option (List Bytes) :=
  if frameSize = 0 ∨ offset > 2 ^ 63 - 1 then none
  else
    match file with
    | none => none
    | some content =>
      let body := (content.drop offset).take length
      if body.length < length then none else some (splitChunks frameSize length body)

/-- A worker is done. `cached` is what another worker has put into the slot before this one, a body
of the same length. -/
def completeStaticFileBodyRead (read : StaticFileBodyRead)
    (file cached : Option Bytes) : Http2StreamManager :=
  match readStaticFileChunksBlocking file read.offset read.length read.frameSize with
  | none => s.enqueueSendFrame (.rstStream
      { header := { type := .RstStream, streamId := read.streamId }
        errorCode := Http2ErrorCode.InternalError.code })
  | some chunks =>
    let chunks :=
      match cached with
      | some body =>
        if read.bodyCacheSlot ∧ read.offset = 0 then splitChunks read.frameSize read.length body
        else chunks
      | none => chunks
    s.enqueueOutgoing (.segmented (Http2FrameBuilder.headersHeaderBytes read.streamId
      read.headerBlock.length false true) read.headerBlock :: dataFrames read.streamId chunks)

variable {s}

/-! ## Header blocks -/

variable (s : Http2StreamManager)

def setDecoder (decoder : HpackDecoder) : Http2StreamManager :=
  { s with conn := { s.conn with decoder } }

def setLastPeerStreamId (s : Http2StreamManager) (streamId : UInt32) : Http2StreamManager :=
  { s with conn := s.conn.setLastPeerStreamId streamId }

/-- A decoding error is not reported here. -/
def decodeBufferedHeaders (streamId : UInt32) : Http2StreamManager :=
  match s.conn.getStream streamId with
  | none => s
  | some stream =>
    let (fields, decoder) := s.conn.decoder.decode stream.headerBlock
    let s := s.setDecoder decoder
    let s :=
      match fields with
      | .ok fields => s.modifyStream streamId (·.setDecodedHeaders fields)
      | .error _ => s
    (s.modifyStream streamId (·.clearHeaderBlock)).setExpectingContinuation false 0

def shouldDeferHeadersOnlyActiveDelivery (stream : Http2Stream) (endStream : Bool) : Bool:=
  if !s.activeConnMode || s.conn.isClient || endStream then false
  else
    match fromCharsAll (stream.request.getHeader (ascii "content-length")) with
    | some parsed => parsed > 0
    | none => false

/-- The delivery of a request that no static response answers. -/
def deliverRequest (streamId : UInt32) (endStream : Bool) :
    Http2StreamManager :=
  let events := Http2StreamEvent.HeadersReady |||
    (if endStream then Http2StreamEvent.RequestComplete else 0)
  match s.conn.getStream streamId with
  | none => s
  | some stream =>
    if s.activeConnMode then
      if s.shouldDeferHeadersOnlyActiveDelivery stream endStream then
        s.modifyStream streamId (·.addPendingEvents events)
      else s.markStreamActive streamId events
    else s.queueStreamHandler streamId

def completeDecodedHeaders (files : StaticFiles) (streamId : UInt32)
    (endStream : Bool) : Http2StreamManager :=
  if s.conn.isClient then
    let s := s.modifyStream streamId fun stream =>
      let stream := stream.consumeDecodedHeadersAsResponse
      if endStream then stream.markResponseCompleted else stream
    s.markStreamActive streamId (Http2StreamEvent.HeadersReady |||
      (if endStream then Http2StreamEvent.ResponseComplete else 0))
  else
    let s := s.modifyStream streamId fun stream =>
      let stream := stream.consumeDecodedHeadersAsRequest
      if endStream then stream.markRequestCompleted else stream
    match s.trySendStreamStaticResponse streamId with
    | some s => s
    | none =>
      match s.trySendStreamStaticFile files streamId with
      | some s => s
      | none => s.deliverRequest streamId endStream

def completeReceivedHeaders (files : StaticFiles) (streamId : UInt32)
    (endStream : Bool) : Http2StreamManager :=
  (s.decodeBufferedHeaders streamId).completeDecodedHeaders files streamId endStream

/-- Whether a new stream of the peer is refused. -/
def refusesStreams : Bool :=
  s.rejectNewStreams || (s.conn.goawaySent && s.conn.goawayLastStreamId ≠ kMaxStreamId)

def concurrencyReached : Bool :=
  s.conn.streamCount ≥ s.conn.localSettings.maxConcurrentStreams.toNat

variable {s}

/-! ## DATA -/

def adjustConnRecvWindow (s : Http2StreamManager) (delta : Int32) : Http2StreamManager :=
  { s with conn := s.conn.adjustConnRecvWindow delta }

variable (s : Http2StreamManager)

def applyRecvWindowUpdate (streamId : UInt32) (dataSize : Nat) :
    Http2StreamManager :=
  match s.conn.getStream streamId with
  | none => s
  | some stream =>
    let update := s.conn.evaluateRecvWindowUpdate stream.recvWindow dataSize
    let s :=
      if update.connIncrement > 0 then
        (s.enqueueWindowUpdateAction 0 update.connIncrement).adjustConnRecvWindow
          update.connIncrement.toInt32
      else s
    if update.streamIncrement > 0 then
      (s.enqueueWindowUpdateAction streamId update.streamIncrement).modifyStream streamId
        (·.adjustRecvWindow update.streamIncrement.toInt32)
    else s

def appendStreamDataAndMarkEvents (streamId : UInt32) (data : Bytes)
    (endStream : Bool) : Http2StreamManager :=
  if s.conn.isClient then
    let s := s.modifyStream streamId fun stream =>
      let stream := stream.appendResponseData data
      if endStream then stream.markResponseCompleted else stream
    s.markStreamActive streamId (Http2StreamEvent.DataArrived |||
      (if endStream then Http2StreamEvent.ResponseComplete else 0))
  else
    let s := s.modifyStream streamId fun stream =>
      let stream := stream.appendRequestData data
      if endStream then stream.markRequestCompleted else stream
    s.markStreamActive streamId (Http2StreamEvent.DataArrived |||
      (if endStream then Http2StreamEvent.RequestComplete else 0))

/-- DATA that the windows admit. -/
def receiveData (streamId : UInt32) (data : Bytes) (endStream : Bool) :
    Http2StreamManager :=
  let delta := Int32.ofNat data.length
  let s := (s.onStream streamId (·.onDataReceived endStream)).adjustConnRecvWindow (-delta)
  let s := s.modifyStream streamId (·.adjustRecvWindow (-delta))
  (s.applyRecvWindowUpdate streamId data.length).appendStreamDataAndMarkEvents streamId data endStream

variable {s}

/-! ## The raw path -/

def materializeFrameView (view : Http2RawFrameView) : Except Http2ErrorCode Http2Frame :=
  Http2FrameParser.parseFrame view.bytes

variable (s : Http2StreamManager)

variable (files : StaticFiles)

variable (streamId : UInt32)

/-- A new stream of the peer, with all its headers. -/
def openDecodedStream (fields : List Http2HeaderField) (endStream : Bool) : Http2StreamManager:=
  let s := (s.createStreamInternal streamId).setLastPeerStreamId streamId
  let s := s.onStream streamId (·.onHeadersReceived endStream)
  let s := s.modifyStream streamId (·.setDecodedHeaders fields)
  (s.completeDecodedHeaders files streamId endStream).tryRetireClientStream streamId

/-- Decode a block and open the stream; a wrong block opens none. -/
def decodeAndOpen (payload : Bytes) (endStream : Bool) : Http2StreamManager:=
  match s.conn.decoder.decode payload with
  | (.error error, decoder) => (s.setDecoder decoder).enqueueGoawayAction error
  | (.ok fields, decoder) => (s.setDecoder decoder).openDecodedStream files streamId fields endStream

/-- The answer of the static routes, and with `withFiles` of the static files. -/
def tryStaticTarget (withFiles : Bool)
    (streamId : UInt32) (target : HpackDecoder.RequestTarget) : Option Http2StreamManager :=
  match s.trySendStaticResponse streamId target.method target.path with
  | some s => some s
  | none =>
    if withFiles then
      s.trySendStaticFile files streamId target.method target.path target.ifNoneMatch target.range
    else none

/-- The target of a request is decoded first; if it has no static answer, the decoder is put back
and the whole block is decoded. -/
def answerStaticOrOpen (withFiles : Bool)
    (streamId : UInt32) (payload : Bytes) (endStream : Bool) : Http2StreamManager :=
  match s.conn.decoder.decodeRequestTarget payload with
  | (.error error, decoder) => (s.setDecoder decoder).enqueueGoawayAction error
  | (.ok target, decoder) =>
    match (s.setDecoder decoder).tryStaticTarget files withFiles streamId target with
    | some s => s.setLastPeerStreamId streamId
    | none => s.decodeAndOpen files streamId payload endStream

/-- HEADERS with END_HEADERS on a new stream. -/
def openRawStream (payload : Bytes) (endStream : Bool) : Http2StreamManager:=
  if endStream && !s.conn.runtimeConfig.staticFileMounts.isEmpty then
    s.answerStaticOrOpen files true streamId payload endStream
  else if endStream && !s.conn.runtimeConfig.staticRoutes.isEmpty then
    s.answerStaticOrOpen files false streamId payload endStream
  else s.decodeAndOpen files streamId payload endStream

/-- HEADERS on a stream of the table. -/
def receiveHeaders (headerBlock : Bytes) (endStream endHeaders : Bool) : Http2StreamManager:=
  let s := s.onStream streamId (·.onHeadersReceived endStream)
  let s := s.modifyStream streamId (·.appendHeaderBlock headerBlock)
  if endHeaders then s.completeReceivedHeaders files streamId endStream
  else s.setExpectingContinuation true streamId

def receiveRawHeaders (view : Http2RawFrameView) : Http2StreamManager:=
  match s.conn.getStream streamId with
  | none => s
  | some stream =>
    if !stream.canReceiveHeaders then s.enqueueRstStreamAction streamId .StreamClosed
    else
      (s.receiveHeaders files streamId view.payload view.endStream view.endHeaders
        ).tryRetireClientStream streamId

variable {streamId}

variable (view : Http2RawFrameView)

variable (streamId : UInt32)

/-- `none` leaves the frame to the parsed path. -/
def handleRawHeadersFrameView : Option Http2StreamManager:=
  if view.header.isPadded || view.header.hasPriority then none
  else
    let s := s.findAttachedStream streamId
    match s.conn.getStream streamId with
    | some _ => some (s.receiveRawHeaders files streamId view)
    | none =>
      if s.refusesStreams then some (s.enqueueRstStreamAction streamId .RefusedStream)
      else if streamId ≤ s.conn.lastPeerStreamId then some (s.enqueueGoawayAction .ProtocolError)
      else if s.concurrencyReached then some (s.enqueueRstStreamAction streamId .RefusedStream)
      else if view.endHeaders then
        some (s.openRawStream files streamId view.payload view.endStream)
      else
        some (((s.createStreamInternal streamId).setLastPeerStreamId streamId).receiveRawHeaders
          files streamId view)

/-- CONTINUATION on a stream of the table. -/
def receiveContinuation (headerBlock : Bytes) (endHeaders endStream : Bool) : Http2StreamManager:=
  let s := s.modifyStream streamId (·.appendHeaderBlock headerBlock)
  if endHeaders then s.completeReceivedHeaders files streamId endStream else s

def handleRawContinuationFrameView : Http2StreamManager:=
  let s := s.findAttachedStream streamId
  match s.conn.getStream streamId with
  | none => s.enqueueGoawayAction .ProtocolError
  | some stream =>
    s.receiveContinuation files streamId view.payload view.endHeaders stream.endStreamReceived

def handleRawDataFrameView :
    Option Http2StreamManager :=
  if view.header.isPadded then none
  else if streamId = 0 then some (s.enqueueGoawayAction .ProtocolError)
  else
    let s := s.findAttachedStream streamId
    match s.conn.getStream streamId with
    | none => some (s.enqueueRstStreamAction streamId .StreamClosed)
    | some stream =>
      if !stream.canReceiveData then some (s.enqueueRstStreamAction streamId .StreamClosed)
      else if view.payload.length > Http2Stream.windowSize s.conn.connRecvWindow then
        some (s.enqueueGoawayAction .FlowControlError)
      else if view.payload.length > Http2Stream.windowSize stream.recvWindow then
        some (s.enqueueRstStreamAction streamId .FlowControlError)
      else
        some ((s.receiveData streamId view.payload view.endStream).tryRetireClientStream streamId)

variable {streamId}

def tryDispatchServerActiveFrameView : Option Http2StreamManager:=
  if !s.activeConnMode || s.conn.isClient then none
  else if view.isHeaders then s.handleRawHeadersFrameView files view view.streamId
  else if view.isContinuation then some (s.handleRawContinuationFrameView files view view.streamId)
  else if view.isData then s.handleRawDataFrameView view view.streamId
  else none

variable {view}

variable {files}

variable {s}

/-! ## The parsed path -/

variable (s : Http2StreamManager)

/-- The stream of a HEADERS frame, in the table if there is one. -/
def findOrCreateHeadersStream (streamId : UInt32) : Http2StreamManager :=
  let s := s.findAttachedStream streamId
  if (s.conn.getStream streamId).isSome then s
  else if s.conn.isClient then s.enqueueGoawayAction .ProtocolError
  else if s.refusesStreams then s.enqueueRstStreamAction streamId .RefusedStream
  else if streamId ≤ s.conn.lastPeerStreamId then s.enqueueGoawayAction .ProtocolError
  else if s.concurrencyReached then s.enqueueRstStreamAction streamId .RefusedStream
  else (s.createStreamInternal streamId).setLastPeerStreamId streamId

variable (files : StaticFiles)

/-- The part of `handleHeadersFrame` after the lookup. -/
def receiveParsedHeaders (frame : Http2HeadersFrame) (streamId : UInt32) : Http2StreamManager:=
  match s.conn.getStream streamId with
  | none => s
  | some stream =>
    if !stream.canReceiveHeaders then s.enqueueRstStreamAction streamId .StreamClosed
    else
      let s :=
        if frame.header.hasPriority then
          s.modifyStream streamId (·.setPriority frame.exclusive frame.streamDependency frame.weight)
        else s
      let s := s.receiveHeaders files streamId frame.headerBlock frame.header.isEndStream
        frame.header.isEndHeaders
      (s.pushStreamFrameIfNeeded streamId (.headers frame)).tryRetireClientStream streamId

def handleHeadersFrame (frame : Http2HeadersFrame) (streamId : UInt32) : Http2StreamManager:=
  (s.findOrCreateHeadersStream streamId).receiveParsedHeaders files frame streamId

def handleContinuationFrame
    (frame : Http2ContinuationFrame) (streamId : UInt32) : Http2StreamManager :=
  let s := s.findAttachedStream streamId
  match s.conn.getStream streamId with
  | none => s.enqueueGoawayAction .ProtocolError
  | some stream =>
    (s.receiveContinuation files streamId frame.headerBlock frame.header.isEndHeaders
      stream.endStreamReceived).pushStreamFrameIfNeeded streamId (.continuation frame)

def handleDataFrame (frame : Http2DataFrame) (streamId : UInt32) :
    Http2StreamManager :=
  if streamId = 0 then s.enqueueGoawayAction .ProtocolError
  else
    let s := s.findAttachedStream streamId
    match s.conn.getStream streamId with
    | none => s.enqueueRstStreamAction streamId .StreamClosed
    | some stream =>
      if !stream.canReceiveData then s.enqueueRstStreamAction streamId .StreamClosed
      else if frame.data.length > Http2Stream.windowSize s.conn.connRecvWindow then
        s.enqueueGoawayAction .FlowControlError
      else if frame.data.length > Http2Stream.windowSize stream.recvWindow then
        s.enqueueRstStreamAction streamId .FlowControlError
      else
        ((s.receiveData streamId frame.data frame.header.isEndStream).pushStreamFrameIfNeeded streamId
          (.data frame)).tryRetireClientStream streamId

def handlePriorityFrame (frame : Http2PriorityFrame) (streamId : UInt32) :
    Http2StreamManager :=
  (s.findAttachedStream streamId).modifyStream streamId
    (·.setPriority frame.exclusive frame.streamDependency frame.weight)

def handleRstStreamFrame (frame : Http2RstStreamFrame) (streamId : UInt32) :
    Http2StreamManager :=
  if streamId = 0 then s.enqueueGoawayAction .ProtocolError
  else
    let s := (s.findAttachedStream streamId).onStream streamId Http2Stream.onRstStreamReceived
    let s := s.markStreamActive streamId Http2StreamEvent.Reset
    let s := s.pushStreamFrameIfNeeded streamId (.rstStream frame)
    (s.modifyStream streamId (·.markRequestCompleted.markResponseCompleted.closeFrameQueue)
      ).tryRetireClientStream streamId

def handleWindowUpdateFrame (frame : Http2WindowUpdateFrame)
    (streamId : UInt32) : Http2StreamManager :=
  let s := s.findAttachedStream streamId
  match s.conn.getStream streamId with
  | none => s
  | some stream =>
    let increment := frame.windowSizeIncrement
    if increment = 0 then s.enqueueRstStreamAction streamId .ProtocolError
    else if stream.sendWindow.toInt + increment.toNat > kMaxStreamId.toNat then
      s.enqueueRstStreamAction streamId .FlowControlError
    else
      ((s.refreshStream increment.toInt32 streamId).markStreamActive streamId
        Http2StreamEvent.WindowUpdated).pushStreamFrameIfNeeded streamId (.windowUpdate frame)

def handlePushPromiseFrame (frame : Http2PushPromiseFrame) :
    Http2StreamManager :=
  if !s.conn.isClient then s.enqueueGoawayAction .ProtocolError
  else
    let promisedId := frame.promisedStreamId
    let s := s.findAttachedStream promisedId
    let s :=
      if (s.conn.getStream promisedId).isSome then s
      else (s.createStreamInternal promisedId).modifyStream promisedId
        fun stream => { stream with state := .ReservedRemote }
    let s := s.pushStreamFrameIfNeeded promisedId (.pushPromise frame)
    if s.activeConnMode then s else s.queueStreamHandler promisedId

def dispatchStreamFrame (frame : Http2Frame) :
    Http2StreamManager :=
  let streamId := frame.header.streamId
  if streamId = 0 then s
  else
    match frame with
    | .headers frame => s.handleHeadersFrame files frame streamId
    | .continuation frame => s.handleContinuationFrame files frame streamId
    | .data frame => s.handleDataFrame frame streamId
    | .priority frame => s.handlePriorityFrame frame streamId
    | .rstStream frame => s.handleRstStreamFrame frame streamId
    | .windowUpdate frame => s.handleWindowUpdateFrame frame streamId
    | .pushPromise frame => s.handlePushPromiseFrame frame
    | _ => s

variable {files}

variable {s}

/-! ## The reader -/

def isConnectionFrame (frame : Http2Frame) : Bool :=
  frame.kind = .Settings || frame.kind = .Ping || frame.kind = .GoAway ||
    (frame.kind = .WindowUpdate && frame.header.streamId = 0)

variable (s : Http2StreamManager)

/-- The check of the reader before it looks at a frame. -/
def unexpectedFrame (isContinuation : Bool) (streamId : UInt32) : Bool :=
  s.conn.expectingContinuation &&
    (!isContinuation || streamId ≠ s.conn.continuationStreamId)

variable (files)

/-- The reader of an active server. -/
def readFrameView (view : Http2RawFrameView) :
    Http2StreamManager :=
  if s.unexpectedFrame view.isContinuation view.streamId then s.stopReader .ProtocolError
  else if view.isConnectionFrame then
    match materializeFrameView view with
    | .error error => s.stopReader error
    | .ok frame => s.handleConnectionFrame frame
  else
    match s.tryDispatchServerActiveFrameView files view with
    | some s => s
    | none =>
      match materializeFrameView view with
      | .error error => s.stopReader error
      | .ok frame => s.dispatchStreamFrame files frame

/-- The reader of the other modes, which gets parsed frames. -/
def readFrame (view : Http2RawFrameView) :
    Http2StreamManager :=
  match materializeFrameView view with
  | .error error => s.stopReader error
  | .ok frame =>
    if s.unexpectedFrame (frame.kind = .Continuation) frame.header.streamId then
      s.stopReader .ProtocolError
    else if isConnectionFrame frame then s.handleConnectionFrame frame
    else s.dispatchStreamFrame files frame

/-- One frame of the peer. -/
def receive (view : Http2RawFrameView) :
    Http2StreamManager :=
  if s.exitLoop then s
  else if s.activeConnMode && !s.conn.isClient then s.readFrameView files view
  else s.readFrame files view

variable {files}

/-- The handlers that wait are started; what they do are events of their own. -/
def spawnHandlers : Http2StreamManager := { s with pendingSpawns := [] }

/-- What the reader does after the frames that were read at once. When the loop is left, the frame
queues are closed. -/
def endBatch : Http2StreamManager :=
  let s := if s.activeConnMode && !s.conn.isClient then s.flushStaticResponseBatch else s
  let s := s.processPendingActions.flushActiveStreams.spawnHandlers
  if s.exitLoop then s.mapStreams (·.closeFrameQueue) else s

variable {s}

/-! ## Runs -/

/-- The calls of an application on a stream. -/
inductive StreamCall
  | sendHeaders (headers : List Http2HeaderField) (endStream endHeaders : Bool)
  | sendHeadersAndData (headers : List Http2HeaderField) (data : Bytes) (endHeaders : Bool)
  | sendHeadersAndDataChunks (headers : List Http2HeaderField) (chunks : List Bytes)
      (endHeaders : Bool)
  | sendEncodedHeaders (headerBlock : Bytes) (endStream endHeaders : Bool)
  | sendEncodedHeadersAndData (headerBlock data : Bytes) (endHeaders : Bool)
  | sendEncodedHeadersAndDataChunks (headerBlock : Bytes) (chunks : List Bytes) (endHeaders : Bool)
  | sendData (data : Bytes) (endStream : Bool)
  | sendDataBatch (chunks : List Bytes) (endStream : Bool)
  | sendDataChunks (chunks : List Bytes) (endStream : Bool)
  | sendFrames (frames : List Http2Frame)
  | sendRstStream (error : Http2ErrorCode)
  | sendWindowUpdate (increment : UInt32)
  | takeEvents
  | closeFrameQueue

def StreamCall.run : StreamCall → Http2Stream → Http2StreamIo → Http2Stream × Http2StreamIo
  | .sendHeaders headers endStream endHeaders => (·.sendHeadersInternal headers endStream endHeaders)
  | .sendHeadersAndData headers data endHeaders =>
    (·.sendHeadersAndDataInternal headers data endHeaders)
  | .sendHeadersAndDataChunks headers chunks endHeaders =>
    (·.sendHeadersAndDataChunksInternal headers chunks endHeaders)
  | .sendEncodedHeaders headerBlock endStream endHeaders =>
    (·.sendEncodedHeadersInternal headerBlock endStream endHeaders)
  | .sendEncodedHeadersAndData headerBlock data endHeaders =>
    (·.sendEncodedHeadersAndDataInternal headerBlock data endHeaders)
  | .sendEncodedHeadersAndDataChunks headerBlock chunks endHeaders =>
    (·.sendEncodedHeadersAndDataChunksInternal headerBlock chunks endHeaders)
  | .sendData data endStream => (·.queueDataForSend data endStream)
  | .sendDataBatch chunks endStream => (·.sendDataBatchInternal chunks endStream)
  | .sendDataChunks chunks endStream => (·.sendDataChunksInternal chunks endStream)
  | .sendFrames frames => (·.sendFrameBatchInternal frames)
  | .sendRstStream error => (·.sendRstStreamInternal error)
  | .sendWindowUpdate increment => (·.sendWindowUpdate increment)
  | .takeEvents => fun stream io => (stream.takeEvents.2, io)
  | .closeFrameQueue => fun stream io => (stream.closeFrameQueue, io)

inductive Event
  | receive (view : Http2RawFrameView) (files : StaticFiles)
  | endBatch
  | drainRetiredStreams
  /-- A worker is done with the read at this place of the list. -/
  | staticFileRead (index : Nat) (file cached : Option Bytes)
  | allocateStream
  | call (streamId : UInt32) (call : StreamCall)
  /-- A call on a stream that has left the table. -/
  | callDetached (index : Nat) (call : StreamCall)
  /-- The last pointer to a stream that has left the table is gone. -/
  | release (index : Nat)
  /-- The handler of a stream is done, or could not be started. -/
  | finishHandler (streamId : UInt32) (started : Bool)
  | sendGoaway (error : Http2ErrorCode) (debug : Bytes) (lastStreamId : Option UInt32)
  | rejectNewStreams
  /-- The hash table goes through the streams in another order. -/
  | rehash (streams : List Http2Stream)

variable (s : Http2StreamManager)

def callDetached (index : Nat) (call : StreamCall) : Http2StreamManager :=
  match s.detached[index]? with
  | none => s
  | some stream =>
    let (stream, io) := call.run stream s.io
    { s with io, detached := s.detached.set index stream }

def step : Event → Http2StreamManager
  | .receive view files => s.receive files view
  | .endBatch => s.endBatch
  | .drainRetiredStreams => s.drainRetiredStreams
  | .staticFileRead index file cached =>
    match s.staticFileReads[index]? with
    | none => s
    | some read =>
      if cached.all (·.length = read.length) then
        completeStaticFileBodyRead
          { s with staticFileReads := s.staticFileReads.eraseIdx index } read file cached
      else s
  | .allocateStream => s.allocateStream
  | .call streamId call => s.onStream streamId call.run
  | .callDetached index call => s.callDetached index call
  | .release index =>
    { s with
      detached := s.detached.eraseIdx index
      streamPool := s.streamPool ++ s.detached[index]?.toList }
  | .finishHandler streamId started =>
    let s := if started then s else s.modifyStream streamId (·.closeFrameQueue)
    s.enqueueRetireStream streamId
  | .sendGoaway error debug lastStreamId => s.enqueueGoaway error debug lastStreamId
  | .rejectNewStreams => { s with rejectNewStreams := true }
  | .rehash streams =>
    if streams.Perm s.conn.streams then { s with conn := { s.conn with streams } } else s

def run (events : List Event) : Http2StreamManager := events.foldl step s

/-- The manager of a new connection when it starts. -/
def prepareForStart (conn : Http2Conn) (activeConnMode : Bool) : Http2StreamManager :=
  let s : Http2StreamManager :=
    { conn, activeConnMode, nextLocalStreamId := if conn.isClient then 3 else 2 }
  let target := conn.runtimeConfig.flowControlTargetWindow
  if !conn.isClient ∧ target > 0 ∧ target.toInt32 > conn.connRecvWindow then
    let increment := target - conn.connRecvWindow.toUInt32
    (s.enqueueWindowUpdateAction 0 increment).adjustConnRecvWindow increment.toInt32
  else s

end Http2StreamManager

end Galay.Http2
