import Galay.Kernel.IoVec

/-!
# WebSocket base types (`galay-ws/protoc/ws_base.h`, `ws_error.h`)
-/

namespace Galay.Ws

inductive WsOpcode
  | Continuation
  | Text
  | Binary
  | Close
  | Ping
  | Pong
  deriving DecidableEq, Repr

namespace WsOpcode

def toByte : WsOpcode → UInt8
  | .Continuation => 0x0
  | .Text => 0x1
  | .Binary => 0x2
  | .Close => 0x8
  | .Ping => 0x9
  | .Pong => 0xA

/-- The cast of a value that the parser has found to be an opcode. -/
def ofByte (value : UInt8) : WsOpcode :=
  match value.toNat with
  | 0x0 => .Continuation
  | 0x2 => .Binary
  | 0x8 => .Close
  | 0x9 => .Ping
  | 0xA => .Pong
  | _ => .Text

end WsOpcode

def isControlFrame (opcode : WsOpcode) : Bool :=
  opcode = .Close || opcode = .Ping || opcode = .Pong

/-- The error codes that reading and parsing raise. -/
inductive WsErrorCode
  | Incomplete
  | InvalidFrame
  | InvalidOpcode
  | InvalidPayloadLength
  | ControlFrameTooLarge
  | ControlFrameFragmented
  | InvalidUtf8
  | ProtocolError
  | ConnectionClosed
  | MessageTooLarge
  | InvalidCloseCode
  | ReservedBitsSet
  | MaskRequired
  | MaskNotAllowed
  | ConnectionError
  deriving DecidableEq, Repr

/-- The four bytes of a masking key are an array of that size in the source. -/
abbrev MaskingKey := { key : Bytes // key.length = 4 }

def zeroKey : MaskingKey := ⟨[0, 0, 0, 0], rfl⟩

structure WsFrameHeader where
  payloadLength : Nat := 0
  opcode : WsOpcode := .Text
  maskingKey : MaskingKey := zeroKey
  fin : Bool := false
  rsv1 : Bool := false
  rsv2 : Bool := false
  rsv3 : Bool := false
  mask : Bool := false
  deriving DecidableEq, Repr

structure WsFrame where
  header : WsFrameHeader := {}
  payload : Bytes := []
  deriving DecidableEq, Repr

end Galay.Ws
