import Galay.Lib.Bytes

/-!
# Constants and enumerations of the HTTP/2 protocol layer (`protoc/http2_base.h`)
-/

namespace Galay.Http2

def kHttp2FrameHeaderLength : Nat := 9

def kDefaultHeaderTableSize : Nat := 4096
def kDefaultEnablePush : UInt32 := 1
def kDefaultMaxConcurrentStreams : UInt32 := 100
def kDefaultInitialWindowSize : UInt32 := 65535
def kDefaultMaxFrameSize : UInt32 := 16384
def kDefaultMaxHeaderListSize : UInt32 := 8192

def kMinFrameSize : UInt32 := 16384
def kMaxFrameSize : UInt32 := 16777215

def kMaxStreamId : UInt32 := 0x7FFFFFFF

/-- Frame types; a byte that names none of them is kept as it is. -/
inductive Http2FrameType
  | Data
  | Headers
  | Priority
  | RstStream
  | Settings
  | PushPromise
  | Ping
  | GoAway
  | WindowUpdate
  | Continuation
  | Unknown (code : UInt8)
  deriving DecidableEq, Repr

namespace Http2FrameType

def toByte : Http2FrameType → UInt8
  | .Data => 0
  | .Headers => 1
  | .Priority => 2
  | .RstStream => 3
  | .Settings => 4
  | .PushPromise => 5
  | .Ping => 6
  | .GoAway => 7
  | .WindowUpdate => 8
  | .Continuation => 9
  | .Unknown code => code

def ofByte (code : UInt8) : Http2FrameType :=
  match code.toNat with
  | 0 => .Data
  | 1 => .Headers
  | 2 => .Priority
  | 3 => .RstStream
  | 4 => .Settings
  | 5 => .PushPromise
  | 6 => .Ping
  | 7 => .GoAway
  | 8 => .WindowUpdate
  | 9 => .Continuation
  | _ => .Unknown code

@[simp] theorem toByte_ofByte (code : UInt8) : (ofByte code).toByte = code := by
  unfold ofByte
  split <;> first | rfl | exact UInt8.toNat_inj.1 (by simp [toByte, *])

end Http2FrameType

namespace Http2FrameFlags

def kEndStream : UInt8 := 0x1
def kPadded : UInt8 := 0x8
def kEndHeaders : UInt8 := 0x4
def kPriority : UInt8 := 0x20
def kAck : UInt8 := 0x1

end Http2FrameFlags

/-! Settings identifiers, as they stand on the wire. -/

namespace Http2SettingsId

def HeaderTableSize : UInt16 := 0x1
def EnablePush : UInt16 := 0x2
def MaxConcurrentStreams : UInt16 := 0x3
def InitialWindowSize : UInt16 := 0x4
def MaxFrameSize : UInt16 := 0x5
def MaxHeaderListSize : UInt16 := 0x6

end Http2SettingsId

/-- Error codes. -/
inductive Http2ErrorCode
  | NoError
  | ProtocolError
  | InternalError
  | FlowControlError
  | SettingsTimeout
  | StreamClosed
  | FrameSizeError
  | RefusedStream
  | Cancel
  | CompressionError
  | ConnectError
  | EnhanceYourCalm
  | InadequateSecurity
  | Http11Required
  deriving DecidableEq, Repr

def Http2ErrorCode.code : Http2ErrorCode → UInt32
  | .NoError => 0x0
  | .ProtocolError => 0x1
  | .InternalError => 0x2
  | .FlowControlError => 0x3
  | .SettingsTimeout => 0x4
  | .StreamClosed => 0x5
  | .FrameSizeError => 0x6
  | .RefusedStream => 0x7
  | .Cancel => 0x8
  | .CompressionError => 0x9
  | .ConnectError => 0xa
  | .EnhanceYourCalm => 0xb
  | .InadequateSecurity => 0xc
  | .Http11Required => 0xd

/-- The life cycle of a stream. -/
inductive Http2StreamState
  | Idle
  | ReservedLocal
  | ReservedRemote
  | Open
  | HalfClosedLocal
  | HalfClosedRemote
  | Closed
  deriving DecidableEq, Repr

end Galay.Http2
