import Galay.Rpc.Metadata

/-!
# Requests, responses and their codec (`galay-rpc/protoc/rpc_message.h`, `rpc_codec.h`)

A body is read from its front, and what is left of it stands for the offset. What is written is the
concatenation of the parts; `length_serialize` says that it fills the buffer.
-/

namespace Galay.Rpc

open Galay.Lib

/-- The borrowed payload of a ring buffer. -/
structure RpcPayloadView where
  segment1 : Bytes := []
  segment2 : Bytes := []
  deriving DecidableEq, Repr

def RpcPayloadView.size (view : RpcPayloadView) : Nat :=
  if 2 ^ 64 - 1 - view.segment2.length < view.segment1.length then 2 ^ 64 - 1
  else view.segment1.length + view.segment2.length

/-- The payload of a message, owned or borrowed. -/
structure RpcPayload where
  payload : Bytes := []
  payloadView : RpcPayloadView := {}
  payloadOwned : Bool := true
  deriving DecidableEq, Repr

namespace RpcPayload

variable (message : RpcPayload)

def payloadSize : Nat :=
  if message.payloadOwned then message.payload.length else message.payloadView.size

def view : RpcPayloadView :=
  if message.payloadOwned then { segment1 := message.payload } else message.payloadView

/-- `payload()`, which copies a borrowed payload. -/
def bytes : Bytes := message.view.segment1 ++ message.view.segment2

def own (payload : Bytes) : RpcPayload where
  payload := payload
  payloadView := { segment1 := payload }

end RpcPayload

structure RpcRequest where
  requestId : UInt32 := 0
  callMode : RpcCallMode := .UNARY
  endOfStream : Bool := true
  serviceName : Bytes := []
  methodName : Bytes := []
  metadata : RpcMetadata := .empty
  payload : RpcPayload := {}

def kRpcRequestMetadataMarker : Nat := 0xFFFF

def serializeEntry (entry : MetadataEntry) : Bytes :=
  toBe 2 entry.1.length ++ toBe 2 entry.2.length ++ entry.1 ++ entry.2

/-- The metadata entries of a request, read into a container. -/
def deserializeEntries : Nat → Bytes → RpcMetadata → Option (RpcMetadata × Bytes)
  | 0, body, metadata => some (metadata, body)
  | count + 1, body, metadata => do
    let (keyLen, body) ← readBe 2 body
    let (valueLen, body) ← readBe 2 body
    if body.length < keyLen + valueLen then none
    let (key, body) ← readBytes keyLen body
    let (value, body) ← readBytes valueLen body
    match metadata.insert key value with
    | .error _ => none
    | .ok metadata => deserializeEntries count body metadata

namespace RpcRequest

variable (request : RpcRequest)

def metadataWireSize : Nat :=
  if request.metadata.size = 0 then 0
  else
    let size := 2 + 2 + entriesSize request.metadata.values.entries
    if kRpcMetadataMaxWireSize < size then kRpcMetadataMaxWireSize + 1 else size

def serializedBodySize : Nat :=
  request.metadataWireSize + 2 + request.serviceName.length + 2 + request.methodName.length +
    request.payload.payloadSize

def validateForWrite : Except RpcError Unit :=
  if 2 ^ 16 - 1 < request.serviceName.length then
    .error ⟨.INVALID_REQUEST, "RPC service name too large"⟩
  else if 2 ^ 16 - 1 < request.methodName.length then
    .error ⟨.INVALID_REQUEST, "RPC method name too large"⟩
  else if kRpcMetadataMaxWireSize < request.metadataWireSize then
    .error ⟨.INVALID_REQUEST, "RPC metadata too large"⟩
  else if RPC_MAX_BODY_SIZE < request.payload.payloadSize ∨
      RPC_MAX_BODY_SIZE < request.serializedBodySize then
    .error ⟨.INVALID_REQUEST, "RPC request body too large"⟩
  else .ok ()

def serializeMetadata : Bytes :=
  if request.metadata.size = 0 then []
  else
    toBe 2 kRpcRequestMetadataMarker ++ toBe 2 request.metadata.size ++
      request.metadata.values.entries.flatMap serializeEntry

def header : RpcHeader where
  type := RpcMessageType.REQUEST
  flags := rpcEncodeFlags request.callMode request.endOfStream
  reserved := if request.metadata.size = 0 then 0 else RPC_RESERVED_METADATA
  requestId := request.requestId
  bodyLength := UInt32.ofNat request.serializedBodySize

def serializeBody : Bytes :=
  request.serializeMetadata ++
    (toBe 2 request.serviceName.length ++ request.serviceName) ++
    (toBe 2 request.methodName.length ++ request.methodName) ++ request.payload.bytes

def serialize : Bytes :=
  match request.validateForWrite with
  | .error _ => []
  | .ok () => request.header.serialize ++ request.serializeBody

/-- The fields of a request that its body gives. -/
def deserializeBody (body : Bytes) (hasMetadata : Bool) : Option RpcRequest := do
  if body.length < 4 then none
  let (metadata, body) ←
    if hasMetadata then do
      let (marker, body) ← readBe 2 body
      if marker ≠ kRpcRequestMetadataMarker then none
      let (metadataCount, body) ← readBe 2 body
      if kRpcMetadataMaxEntries < metadataCount then none
      deserializeEntries metadataCount body .empty
    else some (.empty, body)
  let (serviceLen, body) ← readBe 2 body
  let (serviceName, body) ← readBytes serviceLen body
  let (methodLen, body) ← readBe 2 body
  let (methodName, body) ← readBytes methodLen body
  some { request with metadata, serviceName, methodName, payload := .own body }

end RpcRequest

structure RpcResponse where
  requestId : UInt32 := 0
  callMode : RpcCallMode := .UNARY
  endOfStream : Bool := true
  errorCode : RpcErrorCode := .OK
  payload : RpcPayload := {}

namespace RpcResponse

variable (response : RpcResponse)

def validateForWrite : Except RpcError Unit :=
  let payloadSize := response.payload.payloadSize
  if RPC_MAX_BODY_SIZE < payloadSize ∨ RPC_MAX_BODY_SIZE - 2 < payloadSize then
    .error ⟨.INVALID_RESPONSE, "RPC response body too large"⟩
  else .ok ()

def header : RpcHeader where
  type := RpcMessageType.RESPONSE
  flags := rpcEncodeFlags response.callMode response.endOfStream
  requestId := response.requestId
  bodyLength := UInt32.ofNat (2 + response.payload.view.size)

def serializeBody : Bytes := toBe 2 response.errorCode.value.toNat ++ response.payload.bytes

def serialize : Bytes :=
  match response.validateForWrite with
  | .error _ => []
  | .ok () => response.header.serialize ++ response.serializeBody

def deserializeBody (body : Bytes) : Option RpcResponse := do
  let (errorCode, body) ← readBe 2 body
  some { response with errorCode := ⟨UInt16.ofNat errorCode⟩, payload := .own body }

end RpcResponse

namespace RpcCodec

inductive DecodeResult
  | COMPLETE (header : RpcHeader)
  | INCOMPLETE
  | ERROR
  deriving DecidableEq, Repr

variable (data : Bytes)

def decodeHeader : DecodeResult :=
  if data.length < RPC_HEADER_SIZE then .INCOMPLETE
  else
    match RpcHeader.deserialize data with
    | none => .ERROR
    | some header => .COMPLETE header

/-- The body that the header announces. -/
def body (header : RpcHeader) : Bytes :=
  (data.drop RPC_HEADER_SIZE).take header.bodyLength.toNat

def decodeRequest : Except RpcError RpcRequest :=
  match decodeHeader data with
  | .INCOMPLETE => .error ⟨.INVALID_REQUEST, "Incomplete data"⟩
  | .ERROR => .error ⟨.INVALID_REQUEST, "Invalid header"⟩
  | .COMPLETE header =>
    if header.type ≠ RpcMessageType.REQUEST then
      .error ⟨.INVALID_REQUEST, "Not a request message"⟩
    else if header.reserved &&& ~~~ RPC_RESERVED_KNOWN_MASK ≠ 0 then
      .error ⟨.INVALID_REQUEST, "Unsupported request reserved bits"⟩
    else if data.length < RPC_HEADER_SIZE + header.bodyLength.toNat then
      .error ⟨.INVALID_REQUEST, "Incomplete body"⟩
    else
      let request : RpcRequest :=
        { requestId := header.requestId
          callMode := rpcDecodeCallMode header.flags
          endOfStream := rpcIsEndStream header.flags }
      match request.deserializeBody (body data header)
          (header.reserved &&& RPC_RESERVED_METADATA ≠ 0) with
      | none => .error ⟨.DESERIALIZATION_ERROR, "Failed to parse request body"⟩
      | some request => .ok request

def decodeResponse : Except RpcError RpcResponse :=
  match decodeHeader data with
  | .INCOMPLETE => .error ⟨.INVALID_RESPONSE, "Incomplete data"⟩
  | .ERROR => .error ⟨.INVALID_RESPONSE, "Invalid header"⟩
  | .COMPLETE header =>
    if header.type ≠ RpcMessageType.RESPONSE then
      .error ⟨.INVALID_RESPONSE, "Not a response message"⟩
    else if data.length < RPC_HEADER_SIZE + header.bodyLength.toNat then
      .error ⟨.INVALID_RESPONSE, "Incomplete body"⟩
    else
      let response : RpcResponse :=
        { requestId := header.requestId
          callMode := rpcDecodeCallMode header.flags
          endOfStream := rpcIsEndStream header.flags }
      match response.deserializeBody (body data header) with
      | none => .error ⟨.DESERIALIZATION_ERROR, "Failed to parse response body"⟩
      | some response => .ok response

def messageLength : Nat :=
  if data.length < RPC_HEADER_SIZE then 0
  else
    match RpcHeader.deserialize data with
    | none => 0
    | some header => RPC_HEADER_SIZE + header.bodyLength.toNat

end RpcCodec

end Galay.Rpc
