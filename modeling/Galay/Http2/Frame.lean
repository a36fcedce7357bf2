import Galay.Http2.Base
import Galay.Lib.BigEndian

/-!
# Frames (`protoc/http2_frame.cc`)

One structure per frame class, each with the header of the frame; `serialize` and `parsePayload`
follow the class they belong to. The read offset of a parser is the list of the bytes that are
left. Error codes and settings identifiers are kept as they stand on the wire, since the source
casts any value into the enumeration.
-/

namespace Galay.Http2

open Lib (toBe ofBe)

structure Http2FrameHeader where
  length : UInt32 := 0
  streamId : UInt32 := 0
  type : Http2FrameType := .Unknown 0xFF
  flags : UInt8 := 0
  deriving DecidableEq, Repr

namespace Http2FrameHeader

def hasFlag (header : Http2FrameHeader) (flag : UInt8) : Bool := header.flags &&& flag ≠ 0

def setFlag (header : Http2FrameHeader) (flag : UInt8) : Http2FrameHeader :=
  { header with flags := header.flags ||| flag }

def serialize (header : Http2FrameHeader) : Bytes :=
  toBe 3 header.length.toNat ++ [header.type.toByte, header.flags] ++
    toBe 4 (header.streamId &&& 0x7FFFFFFF).toNat

/-- Only called with at least nine bytes. -/
def deserialize (buffer : Bytes) : Http2FrameHeader where
  length := UInt32.ofNat (ofBe (buffer.take 3))
  type := .ofByte (buffer.getD 3 0)
  flags := buffer.getD 4 0
  streamId := UInt32.ofNat (ofBe ((buffer.drop 5).take 4)) &&& 0x7FFFFFFF

def isPadded (header : Http2FrameHeader) : Bool := header.hasFlag Http2FrameFlags.kPadded
def hasPriority (header : Http2FrameHeader) : Bool := header.hasFlag Http2FrameFlags.kPriority
def isAck (header : Http2FrameHeader) : Bool := header.hasFlag Http2FrameFlags.kAck
def isEndStream (header : Http2FrameHeader) : Bool := header.hasFlag Http2FrameFlags.kEndStream
def isEndHeaders (header : Http2FrameHeader) : Bool := header.hasFlag Http2FrameFlags.kEndHeaders

/-- The header with its length field filled in, and the payload after it. -/
def frameBytes (header : Http2FrameHeader) (payload : Bytes) : Bytes :=
  serialize { header with length := UInt32.ofNat payload.length } ++ payload

/-- A leading pad length, if the frame is padded. -/
def padField (header : Http2FrameHeader) (padLength : UInt8) : Bytes :=
  if header.isPadded then [padLength] else []

/-- The zero bytes at the end, if the frame is padded. -/
def padding (header : Http2FrameHeader) (padLength : UInt8) : Bytes :=
  if header.isPadded then List.replicate padLength.toNat 0 else []

end Http2FrameHeader

/-- Exclusive bit, stream dependency and weight. -/
def priorityBytes (exclusive : Bool) (streamDependency : UInt32) (weight : UInt8) : Bytes :=
  toBe 4 (if exclusive then streamDependency ||| 0x80000000 else streamDependency).toNat ++ [weight]

/-- The pad length of HEADERS and PUSH_PROMISE, `0` when the frame is not padded. -/
def readPadLength (header : Http2FrameHeader) (data : Bytes) :
    Except Http2ErrorCode (UInt8 × Bytes) :=
  if header.isPadded then
    match data with
    | [] => .error .FrameSizeError
    | padLength :: data => .ok (padLength, data)
  else .ok (0, data)

/-- What is left before the padding. -/
def dropPadding (header : Http2FrameHeader) (padLength : UInt8) (data : Bytes) :
    Except Http2ErrorCode Bytes :=
  let padding := if header.isPadded then padLength.toNat else 0
  if padding > data.length then .error .ProtocolError
  else .ok (data.take (data.length - padding))

/-! ## DATA -/

structure Http2DataFrame where
  header : Http2FrameHeader := { type := .Data }
  data : Bytes := []
  padLength : UInt8 := 0
  deriving DecidableEq, Repr

namespace Http2DataFrame

def payload (frame : Http2DataFrame) : Bytes :=
  frame.header.padField frame.padLength ++ frame.data ++ frame.header.padding frame.padLength

def serialize (frame : Http2DataFrame) : Bytes := frame.header.frameBytes frame.payload

def parsePayload (header : Http2FrameHeader) (data : Bytes) : Except Http2ErrorCode Http2DataFrame :=
  if header.isPadded then
    match data with
    | [] => .error .FrameSizeError
    | padLength :: rest =>
      if padLength.toNat ≥ data.length then .error .ProtocolError
      else .ok ⟨header, rest.take (data.length - 1 - padLength.toNat), padLength⟩
  else .ok ⟨header, data, 0⟩

end Http2DataFrame

/-! ## HEADERS -/

structure Http2HeadersFrame where
  header : Http2FrameHeader := { type := .Headers }
  streamDependency : UInt32 := 0
  headerBlock : Bytes := []
  exclusive : Bool := false
  weight : UInt8 := 16
  padLength : UInt8 := 0
  deriving DecidableEq, Repr

namespace Http2HeadersFrame

variable (frame : Http2HeadersFrame)

def payload : Bytes :=
  frame.header.padField frame.padLength ++
    (if frame.header.hasPriority then
      priorityBytes frame.exclusive frame.streamDependency frame.weight else []) ++
    frame.headerBlock ++ frame.header.padding frame.padLength

def serialize : Bytes := frame.header.frameBytes frame.payload

/-- The optional priority fields, stored into `frame`. -/
def parsePriority (data : Bytes) :
    Except Http2ErrorCode (Http2HeadersFrame × Bytes) :=
  if frame.header.hasPriority then
    if data.length < 5 then .error .FrameSizeError
    else
      let dep := UInt32.ofNat (ofBe (data.take 4))
      .ok ({ frame with
        exclusive := dep &&& 0x80000000 ≠ 0
        streamDependency := dep &&& 0x7FFFFFFF
        weight := data.getD 4 0 }, data.drop 5)
  else .ok (frame, data)

def parsePayload (header : Http2FrameHeader) (data : Bytes) :
    Except Http2ErrorCode Http2HeadersFrame :=
  match readPadLength header data with
  | .error err => .error err
  | .ok (padLength, data) =>
    match parsePriority { header, padLength } data with
    | .error err => .error err
    | .ok (frame, data) =>
      match dropPadding header padLength data with
      | .error err => .error err
      | .ok headerBlock => .ok { frame with headerBlock }

end Http2HeadersFrame

/-! ## PRIORITY -/

structure Http2PriorityFrame where
  header : Http2FrameHeader := { type := .Priority }
  streamDependency : UInt32 := 0
  exclusive : Bool := false
  weight : UInt8 := 16
  deriving DecidableEq, Repr

namespace Http2PriorityFrame

def payload (frame : Http2PriorityFrame) : Bytes :=
  priorityBytes frame.exclusive frame.streamDependency frame.weight

def serialize (frame : Http2PriorityFrame) : Bytes := frame.header.frameBytes frame.payload

def parsePayload (header : Http2FrameHeader) (data : Bytes) :
    Except Http2ErrorCode Http2PriorityFrame :=
  if data.length ≠ 5 then .error .FrameSizeError
  else
    let dep := UInt32.ofNat (ofBe (data.take 4))
    .ok ⟨header, dep &&& 0x7FFFFFFF, dep &&& 0x80000000 ≠ 0, data.getD 4 0⟩

end Http2PriorityFrame

/-! ## RST_STREAM -/

structure Http2RstStreamFrame where
  header : Http2FrameHeader := { type := .RstStream }
  errorCode : UInt32 := 0
  deriving DecidableEq, Repr

namespace Http2RstStreamFrame

def payload (frame : Http2RstStreamFrame) : Bytes := toBe 4 frame.errorCode.toNat

def serialize (frame : Http2RstStreamFrame) : Bytes := frame.header.frameBytes frame.payload

def parsePayload (header : Http2FrameHeader) (data : Bytes) :
    Except Http2ErrorCode Http2RstStreamFrame :=
  if data.length ≠ 4 then .error .FrameSizeError
  else .ok ⟨header, UInt32.ofNat (ofBe data)⟩

end Http2RstStreamFrame

/-! ## SETTINGS -/

structure Http2Setting where
  value : UInt32
  id : UInt16
  deriving DecidableEq, Repr

structure Http2SettingsFrame where
  header : Http2FrameHeader := { type := .Settings }
  settings : List Http2Setting := []
  deriving DecidableEq, Repr

namespace Http2SettingsFrame

def settingBytes (setting : Http2Setting) : Bytes :=
  toBe 2 setting.id.toNat ++ toBe 4 setting.value.toNat

def payload (frame : Http2SettingsFrame) : Bytes :=
  if frame.header.isAck then [] else frame.settings.flatMap settingBytes

def serialize (frame : Http2SettingsFrame) : Bytes :=
  Http2FrameHeader.frameBytes { frame.header with streamId := 0 } frame.payload

/-- The loop over the six-byte entries. -/
def parseSettings : Bytes → List Http2Setting
  | i0 :: i1 :: v0 :: v1 :: v2 :: v3 :: data =>
    ⟨UInt32.ofNat (ofBe [v0, v1, v2, v3]), UInt16.ofNat (ofBe [i0, i1])⟩ :: parseSettings data
  | _ => []

def parsePayload (header : Http2FrameHeader) (data : Bytes) :
    Except Http2ErrorCode Http2SettingsFrame :=
  if header.isAck then
    if data.length ≠ 0 then .error .FrameSizeError else .ok ⟨header, []⟩
  else if data.length % 6 ≠ 0 then .error .FrameSizeError
  else .ok ⟨header, parseSettings data⟩

end Http2SettingsFrame

/-! ## PUSH_PROMISE -/

structure Http2PushPromiseFrame where
  header : Http2FrameHeader := { type := .PushPromise }
  promisedStreamId : UInt32 := 0
  headerBlock : Bytes := []
  padLength : UInt8 := 0
  deriving DecidableEq, Repr

namespace Http2PushPromiseFrame

def payload (frame : Http2PushPromiseFrame) : Bytes :=
  frame.header.padField frame.padLength ++
    toBe 4 (frame.promisedStreamId &&& 0x7FFFFFFF).toNat ++
    frame.headerBlock ++ frame.header.padding frame.padLength

def serialize (frame : Http2PushPromiseFrame) : Bytes := frame.header.frameBytes frame.payload

def parsePayload (header : Http2FrameHeader) (data : Bytes) :
    Except Http2ErrorCode Http2PushPromiseFrame :=
  match readPadLength header data with
  | .error err => .error err
  | .ok (padLength, data) =>
    if data.length < 4 then .error .FrameSizeError
    else
      let promisedStreamId := UInt32.ofNat (ofBe (data.take 4)) &&& 0x7FFFFFFF
      match dropPadding header padLength (data.drop 4) with
      | .error err => .error err
      | .ok headerBlock => .ok ⟨header, promisedStreamId, headerBlock, padLength⟩

end Http2PushPromiseFrame

/-! ## PING -/

/-- The eight bytes of a PING are an array of that size in the source. -/
abbrev PingData := { data : Bytes // data.length = 8 }

def zeroPing : PingData := ⟨List.replicate 8 0, rfl⟩

structure Http2PingFrame where
  header : Http2FrameHeader := { type := .Ping }
  opaqueData : PingData := zeroPing
  deriving DecidableEq, Repr

namespace Http2PingFrame

def payload (frame : Http2PingFrame) : Bytes := frame.opaqueData

def serialize (frame : Http2PingFrame) : Bytes :=
  Http2FrameHeader.frameBytes { frame.header with streamId := 0 } frame.payload

def parsePayload (header : Http2FrameHeader) (data : Bytes) : Except Http2ErrorCode Http2PingFrame :=
  if h : data.length = 8 then .ok ⟨header, ⟨data, h⟩⟩ else .error .FrameSizeError

end Http2PingFrame

/-! ## GOAWAY -/

structure Http2GoAwayFrame where
  header : Http2FrameHeader := { type := .GoAway }
  lastStreamId : UInt32 := 0
  debugData : Bytes := []
  errorCode : UInt32 := 0
  deriving DecidableEq, Repr

namespace Http2GoAwayFrame

def payload (frame : Http2GoAwayFrame) : Bytes :=
  toBe 4 (frame.lastStreamId &&& 0x7FFFFFFF).toNat ++ toBe 4 frame.errorCode.toNat ++
    frame.debugData

def serialize (frame : Http2GoAwayFrame) : Bytes :=
  Http2FrameHeader.frameBytes { frame.header with streamId := 0 } frame.payload

def parsePayload (header : Http2FrameHeader) (data : Bytes) :
    Except Http2ErrorCode Http2GoAwayFrame :=
  if data.length < 8 then .error .FrameSizeError
  else
    .ok ⟨header, UInt32.ofNat (ofBe (data.take 4)) &&& 0x7FFFFFFF, data.drop 8,
      UInt32.ofNat (ofBe ((data.drop 4).take 4))⟩

end Http2GoAwayFrame

/-! ## WINDOW_UPDATE -/

structure Http2WindowUpdateFrame where
  header : Http2FrameHeader := { type := .WindowUpdate }
  windowSizeIncrement : UInt32 := 0
  deriving DecidableEq, Repr

namespace Http2WindowUpdateFrame

def payload (frame : Http2WindowUpdateFrame) : Bytes :=
  toBe 4 (frame.windowSizeIncrement &&& 0x7FFFFFFF).toNat

def serialize (frame : Http2WindowUpdateFrame) : Bytes := frame.header.frameBytes frame.payload

def parsePayload (header : Http2FrameHeader) (data : Bytes) :
    Except Http2ErrorCode Http2WindowUpdateFrame :=
  if data.length ≠ 4 then .error .FrameSizeError
  else
    let windowSizeIncrement := UInt32.ofNat (ofBe data) &&& 0x7FFFFFFF
    if windowSizeIncrement = 0 then .error .ProtocolError
    else .ok ⟨header, windowSizeIncrement⟩

end Http2WindowUpdateFrame

/-! ## CONTINUATION -/

structure Http2ContinuationFrame where
  header : Http2FrameHeader := { type := .Continuation }
  headerBlock : Bytes := []
  deriving DecidableEq, Repr

namespace Http2ContinuationFrame

def payload (frame : Http2ContinuationFrame) : Bytes := frame.headerBlock

def serialize (frame : Http2ContinuationFrame) : Bytes := frame.header.frameBytes frame.payload

def parsePayload (header : Http2FrameHeader) (data : Bytes) :
    Except Http2ErrorCode Http2ContinuationFrame :=
  .ok ⟨header, data⟩

end Http2ContinuationFrame

/-! ## The codec -/

inductive Http2Frame
  | data (frame : Http2DataFrame)
  | headers (frame : Http2HeadersFrame)
  | priority (frame : Http2PriorityFrame)
  | rstStream (frame : Http2RstStreamFrame)
  | settings (frame : Http2SettingsFrame)
  | pushPromise (frame : Http2PushPromiseFrame)
  | ping (frame : Http2PingFrame)
  | goAway (frame : Http2GoAwayFrame)
  | windowUpdate (frame : Http2WindowUpdateFrame)
  | continuation (frame : Http2ContinuationFrame)
  deriving DecidableEq, Repr

namespace Http2Frame

def header : Http2Frame → Http2FrameHeader
  | .data frame => frame.header
  | .headers frame => frame.header
  | .priority frame => frame.header
  | .rstStream frame => frame.header
  | .settings frame => frame.header
  | .pushPromise frame => frame.header
  | .ping frame => frame.header
  | .goAway frame => frame.header
  | .windowUpdate frame => frame.header
  | .continuation frame => frame.header

/-- The type that the constructor of the frame class puts into the header. -/
def kind : Http2Frame → Http2FrameType
  | .data _ => .Data
  | .headers _ => .Headers
  | .priority _ => .Priority
  | .rstStream _ => .RstStream
  | .settings _ => .Settings
  | .pushPromise _ => .PushPromise
  | .ping _ => .Ping
  | .goAway _ => .GoAway
  | .windowUpdate _ => .WindowUpdate
  | .continuation _ => .Continuation

def payload : Http2Frame → Bytes
  | .data frame => frame.payload
  | .headers frame => frame.payload
  | .priority frame => frame.payload
  | .rstStream frame => frame.payload
  | .settings frame => frame.payload
  | .pushPromise frame => frame.payload
  | .ping frame => frame.payload
  | .goAway frame => frame.payload
  | .windowUpdate frame => frame.payload
  | .continuation frame => frame.payload

def serialize : Http2Frame → Bytes
  | .data frame => frame.serialize
  | .headers frame => frame.serialize
  | .priority frame => frame.serialize
  | .rstStream frame => frame.serialize
  | .settings frame => frame.serialize
  | .pushPromise frame => frame.serialize
  | .ping frame => frame.serialize
  | .goAway frame => frame.serialize
  | .windowUpdate frame => frame.serialize
  | .continuation frame => frame.serialize

end Http2Frame

namespace Http2FrameParser

/-- `createFrame` by the type of the header, then `parsePayload` of that class. -/
def parsePayload (header : Http2FrameHeader) (data : Bytes) : Except Http2ErrorCode Http2Frame :=
  match header.type with
  | .Data => (Http2DataFrame.parsePayload header data).map .data
  | .Headers => (Http2HeadersFrame.parsePayload header data).map .headers
  | .Priority => (Http2PriorityFrame.parsePayload header data).map .priority
  | .RstStream => (Http2RstStreamFrame.parsePayload header data).map .rstStream
  | .Settings => (Http2SettingsFrame.parsePayload header data).map .settings
  | .PushPromise => (Http2PushPromiseFrame.parsePayload header data).map .pushPromise
  | .Ping => (Http2PingFrame.parsePayload header data).map .ping
  | .GoAway => (Http2GoAwayFrame.parsePayload header data).map .goAway
  | .WindowUpdate => (Http2WindowUpdateFrame.parsePayload header data).map .windowUpdate
  | .Continuation => (Http2ContinuationFrame.parsePayload header data).map .continuation
  | .Unknown _ => .error .ProtocolError

def parseFrame (data : Bytes) : Except Http2ErrorCode Http2Frame :=
  if data.length < kHttp2FrameHeaderLength then .error .FrameSizeError
  else
    let header := Http2FrameHeader.deserialize data
    if data.length < kHttp2FrameHeaderLength + header.length.toNat then .error .FrameSizeError
    else parsePayload header ((data.drop kHttp2FrameHeaderLength).take header.length.toNat)

end Http2FrameParser

namespace Http2FrameCodec

def encode (frame : Http2Frame) : Bytes := frame.serialize

def decode (bytes : Bytes) : Except Http2ErrorCode Http2Frame := Http2FrameParser.parseFrame bytes

end Http2FrameCodec

end Galay.Http2

/-!
# Frame builders (`builder/http2_frame_builder.cc`, `utils/h2_helper.cc`)

Frames as objects and frames as bytes. `dataBytes` splits a payload that is longer than the
default frame size into several DATA frames; the others write one frame.
-/

namespace Galay.Http2

def buildH2FrameBytes (type : Http2FrameType) (flags : UInt8) (streamId : UInt32)
    (payload : Bytes) : Bytes :=
  Http2FrameHeader.serialize { length := UInt32.ofNat payload.length, streamId, type, flags } ++
    payload

namespace Http2FrameBuilder

def endFlags (endStream endHeaders : Bool) : UInt8 :=
  (if endStream then Http2FrameFlags.kEndStream else 0) |||
    (if endHeaders then Http2FrameFlags.kEndHeaders else 0)

def data (streamId : UInt32) (payload : Bytes) (endStream : Bool) : Http2DataFrame :=
  { header := { type := .Data, streamId, flags := endFlags endStream false }, data := payload }

variable (streamId : UInt32)

def headers (headerBlock : Bytes) (endStream endHeaders : Bool) :
    Http2HeadersFrame :=
  { header := { type := .Headers, streamId, flags := endFlags endStream endHeaders }, headerBlock }

def rstStream (error : Http2ErrorCode) : Http2RstStreamFrame :=
  { header := { type := .RstStream, streamId }, errorCode := error.code }

/-- The loop of `dataBytes` over a long payload; each round writes at least one byte, so as many
rounds as there are bytes are enough. -/
def dataBytesLoop (streamId : UInt32) (endStream : Bool) : (rounds : Nat) → (payload : Bytes) → Bytes
  | 0, _ => []
  | rounds + 1, payload =>
    if payload.length = 0 then []
    else
      let chunkSize := min payload.length kDefaultMaxFrameSize.toNat
      let chunkEndStream := endStream && chunkSize = payload.length
      buildH2FrameBytes .Data (endFlags chunkEndStream false) streamId (payload.take chunkSize) ++
        dataBytesLoop streamId endStream rounds (payload.drop chunkSize)

def dataBytes (payload : Bytes) (endStream : Bool) : Bytes :=
  if payload.length > kDefaultMaxFrameSize.toNat then
    dataBytesLoop streamId endStream payload.length payload
  else buildH2FrameBytes .Data (endFlags endStream false) streamId payload

def headersBytes (headerBlock : Bytes) (endStream endHeaders : Bool) : Bytes :=
  buildH2FrameBytes .Headers (endFlags endStream endHeaders) streamId headerBlock

def continuationBytes (headerBlock : Bytes) (endHeaders : Bool) : Bytes :=
  buildH2FrameBytes .Continuation (endFlags false endHeaders) streamId headerBlock

def rstStreamBytes (error : Http2ErrorCode) : Bytes :=
  buildH2FrameBytes .RstStream 0 streamId (Lib.toBe 4 error.code.toNat)

end Http2FrameBuilder

end Galay.Http2
