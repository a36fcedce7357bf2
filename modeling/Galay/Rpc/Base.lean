import Galay.Lib.Cursor

/-!
# Messages of the RPC protocol: codes, flags and the header

From `galay-rpc/protoc/rpc_base.h`, `rpc_error.h` and `rpc_message.h`.
-/

namespace Galay.Rpc

open Galay.Lib

/-- The codes are 16-bit numbers; one that has no name can come from the wire. -/
structure RpcErrorCode where
  value : UInt16
  deriving DecidableEq, Repr

namespace RpcErrorCode

def OK : RpcErrorCode := ⟨0⟩
def INVALID_REQUEST : RpcErrorCode := ⟨4⟩
def INVALID_RESPONSE : RpcErrorCode := ⟨5⟩
def CONNECTION_CLOSED : RpcErrorCode := ⟨7⟩
def DESERIALIZATION_ERROR : RpcErrorCode := ⟨9⟩
def INTERNAL_ERROR : RpcErrorCode := ⟨10⟩
def CANCELLED : RpcErrorCode := ⟨11⟩
def DEADLINE_EXCEEDED : RpcErrorCode := ⟨12⟩
def RESOURCE_EXHAUSTED : RpcErrorCode := ⟨13⟩
def RATE_LIMITED : RpcErrorCode := ⟨14⟩
def CIRCUIT_OPEN : RpcErrorCode := ⟨15⟩
def UNAVAILABLE : RpcErrorCode := ⟨18⟩

end RpcErrorCode

structure RpcError where
  code : RpcErrorCode
  message : String
  deriving DecidableEq, Repr

def RPC_MAGIC : UInt32 := 0x47525043

def RPC_VERSION : UInt8 := 1

def RPC_HEADER_SIZE : Nat := 16

def RPC_MAX_BODY_SIZE : Nat := 16 * 1024 * 1024

namespace RpcMessageType

def REQUEST : UInt8 := 1
def RESPONSE : UInt8 := 2
def HEARTBEAT : UInt8 := 3

end RpcMessageType

inductive RpcCallMode
  | UNARY
  | CLIENT_STREAMING
  | SERVER_STREAMING
  | BIDI_STREAMING
  deriving DecidableEq, Repr

def RpcCallMode.toUInt8 : RpcCallMode → UInt8
  | .UNARY => 0
  | .CLIENT_STREAMING => 1
  | .SERVER_STREAMING => 2
  | .BIDI_STREAMING => 3

def RPC_FLAG_MODE_MASK : UInt8 := 0x03
def RPC_FLAG_END_STREAM : UInt8 := 0x04
def RPC_RESERVED_METADATA : UInt8 := 0x01
def RPC_RESERVED_KNOWN_MASK : UInt8 := RPC_RESERVED_METADATA

def rpcEncodeFlags (mode : RpcCallMode) (endStream : Bool) : UInt8 :=
  let flags := mode.toUInt8 &&& RPC_FLAG_MODE_MASK
  if endStream then flags ||| RPC_FLAG_END_STREAM else flags

def rpcDecodeCallMode (flags : UInt8) : RpcCallMode :=
  match (flags &&& RPC_FLAG_MODE_MASK).toNat with
  | 0 => .UNARY
  | 1 => .CLIENT_STREAMING
  | 2 => .SERVER_STREAMING
  | _ => .BIDI_STREAMING

def rpcIsEndStream (flags : UInt8) : Bool := flags &&& RPC_FLAG_END_STREAM ≠ 0

theorem rpcDecodeCallMode_encodeFlags (mode : RpcCallMode) (endStream : Bool) :
    rpcDecodeCallMode (rpcEncodeFlags mode endStream) = mode := by
  cases mode <;> cases endStream <;> rfl

theorem rpcIsEndStream_encodeFlags (mode : RpcCallMode) (endStream : Bool) :
    rpcIsEndStream (rpcEncodeFlags mode endStream) = endStream := by
  cases mode <;> cases endStream <;> rfl

def rpcHeartbeatBodyIsValid (type : UInt8) (bodyLength : UInt32) : Bool :=
  type ≠ RpcMessageType.HEARTBEAT ∨ bodyLength = 0

structure RpcHeader where
  magic : UInt32 := RPC_MAGIC
  version : UInt8 := RPC_VERSION
  type : UInt8 := 0
  flags : UInt8 := 0
  reserved : UInt8 := 0
  requestId : UInt32 := 0
  bodyLength : UInt32 := 0
  deriving DecidableEq, Repr

namespace RpcHeader

def serialize (header : RpcHeader) : Bytes :=
  toBe 4 header.magic.toNat ++ [header.version, header.type, header.flags, header.reserved] ++
    toBe 4 header.requestId.toNat ++ toBe 4 header.bodyLength.toNat

/-- The buffer has at least `RPC_HEADER_SIZE` bytes. -/
def deserialize (buffer : Bytes) : Option RpcHeader :=
  let magic := UInt32.ofNat (ofBe (buffer.take 4))
  if magic ≠ RPC_MAGIC then none
  else
    let version := buffer.getD 4 0
    if version ≠ RPC_VERSION then none
    else
      let header : RpcHeader :=
        { magic, version
          type := buffer.getD 5 0
          flags := buffer.getD 6 0
          reserved := buffer.getD 7 0
          requestId := UInt32.ofNat (ofBe ((buffer.drop 8).take 4))
          bodyLength := UInt32.ofNat (ofBe ((buffer.drop 12).take 4)) }
      if header.bodyLength.toNat ≤ RPC_MAX_BODY_SIZE ∧
          rpcHeartbeatBodyIsValid header.type header.bodyLength then some header
      else none

@[simp]
theorem length_serialize (header : RpcHeader) : header.serialize.length = RPC_HEADER_SIZE := by
  simp [serialize, RPC_HEADER_SIZE]

/-- What the writer fills in is read back. -/
theorem deserialize_serialize_of_valid (hmagic : header.magic = RPC_MAGIC)
    (hver : header.version = RPC_VERSION)
    (hlen : header.bodyLength.toNat ≤ RPC_MAX_BODY_SIZE)
    (hvalid : rpcHeartbeatBodyIsValid header.type header.bodyLength = true) (rest : Bytes) :
    deserialize (header.serialize ++ rest) = some header := by
  obtain ⟨magic, version, type, flags, reserved, requestId, bodyLength⟩ := header
  subst hmagic hver
  simp only at hlen hvalid
  have hmagic : (serialize
      ⟨RPC_MAGIC, RPC_VERSION, type, flags, reserved, requestId, bodyLength⟩ ++ rest).take 4 =
      toBe 4 RPC_MAGIC.toNat := rfl
  have hid : ((serialize
      ⟨RPC_MAGIC, RPC_VERSION, type, flags, reserved, requestId, bodyLength⟩ ++ rest).drop 8).take 4 =
      toBe 4 requestId.toNat := rfl
  have hbody : ((serialize
      ⟨RPC_MAGIC, RPC_VERSION, type, flags, reserved, requestId, bodyLength⟩ ++ rest).drop 12).take 4 =
      toBe 4 bodyLength.toNat := rfl
  unfold deserialize
  simp only [hmagic, hid, hbody, ofNat_ofBe_toBe]
  rw [if_neg (fun h => h rfl), if_neg (fun h => h rfl), if_pos ⟨hlen, hvalid⟩]
  rfl

theorem deserialize_serialize (hmagic : header.magic = RPC_MAGIC)
    (hver : header.version = RPC_VERSION)
    (hlen : header.bodyLength.toNat ≤ RPC_MAX_BODY_SIZE)
    (hheartbeat : header.type ≠ RpcMessageType.HEARTBEAT) (rest : Bytes) :
    deserialize (header.serialize ++ rest) = some header :=
  deserialize_serialize_of_valid hmagic hver hlen (decide_eq_true (Or.inl hheartbeat)) rest

end RpcHeader

end Galay.Rpc
