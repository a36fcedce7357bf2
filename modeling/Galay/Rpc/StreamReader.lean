import Galay.Rpc.Message
import Galay.Utils.RingBuffer

/-!
# Frames of a stream and their reader (`galay-rpc/kernel/rpc_stream.h`, `rpc_conn.h`)

A call of `parseFromRingBuffer` changes the reader, the message that it fills and the ring buffer. The
payload of a message is borrowed from the ring; what is modelled of it are its bytes.
-/

namespace Galay.Rpc

open List
open Galay.Lib

namespace RpcMessageType

def STREAM_INIT : UInt8 := 0x10
def STREAM_INIT_ACK : UInt8 := 0x11
def STREAM_DATA : UInt8 := 0x12
def STREAM_END : UInt8 := 0x13
def STREAM_CANCEL : UInt8 := 0x14

end RpcMessageType

/-! ## Segments (`rpc_conn.h`) -/

variable (iovecs : IoVecs)

def iovecsReadableBytes : Nat :=
  iovecs.foldl (fun total iov => total + iov.length) 0

def copyFromIovecs : IoVecs → (offset bytes : Nat) → Bytes
  | [], _, _ => []
  | iov :: iovecs, offset, bytes =>
    if bytes = 0 then []
    else if iov.length ≤ offset then copyFromIovecs iovecs (offset - iov.length) bytes
    else
      let copied := (iov.drop offset).take bytes
      copied ++ copyFromIovecs iovecs 0 (bytes - copied.length)

/-- The loop of `payloadViewFromIovecs`. -/
def payloadViewLoop : IoVecs → (offset remaining : Nat) → RpcPayloadView → Option RpcPayloadView
  | [], _, remaining, view => if remaining = 0 then some view else none
  | iov :: iovecs, offset, remaining, view =>
    if remaining = 0 then some view
    else if iov.length ≤ offset then
      payloadViewLoop iovecs (offset - iov.length) remaining view
    else
      let taken := (iov.drop offset).take remaining
      if view.segment1.length = 0 then
        payloadViewLoop iovecs 0 (remaining - taken.length) { view with segment1 := taken }
      else if view.segment2.length = 0 then
        payloadViewLoop iovecs 0 (remaining - taken.length) { view with segment2 := taken }
      else none

def payloadViewFromIovecs (srcOffset bytes : Nat) : Option RpcPayloadView :=
  if bytes = 0 then some {} else payloadViewLoop iovecs srcOffset bytes {}

theorem iovecsReadableBytes_eq :
    iovecsReadableBytes iovecs = iovecs.flatten.length := by
  have hfrom : ∀ total, iovecs.foldl (fun total iov => total + iov.length) total =
      total + iovecs.flatten.length := by
    induction iovecs with
    | nil => exact fun total => rfl
    | cons iov iovecs ih =>
    intro total
    rw [foldl_cons, ih, flatten_cons, length_append, Nat.add_assoc]
  rw [iovecsReadableBytes, hfrom, Nat.zero_add]

theorem copyFromIovecs_eq (offset bytes : Nat) :
    copyFromIovecs iovecs offset bytes = (iovecs.flatten.drop offset).take bytes := by
  induction iovecs generalizing offset bytes with
  | nil => rw [copyFromIovecs, flatten_nil, drop_nil, take_nil]
  | cons iov iovecs ih =>
  rw [copyFromIovecs, flatten_cons, drop_append, take_append]
  split
  · next hzero => rw [hzero, take_zero, Nat.zero_sub, take_zero, append_nil]
  split
  · next hle =>
    rw [ih, drop_of_length_le hle, take_nil, nil_append, length_nil, Nat.sub_zero]
  next hlt =>
  have hzero : offset - iov.length = 0 := by omega
  dsimp only
  rw [ih, hzero, length_take]
  congr 2
  omega

variable {iovecs}

/-- The segments of a view that are in use. -/
def RpcPayloadView.used (view : RpcPayloadView) : Nat :=
  (if view.segment1 = [] then 0 else 1) + if view.segment2 = [] then 0 else 1

theorem payloadViewLoop_eq {view : RpcPayloadView}
    (hfirst : view.segment1 = [] → view.segment2 = []) (htwo : iovecs.length + view.used ≤ 2)
    (hrem : remaining ≤ iovecs.flatten.length) :
    ∃ view', payloadViewLoop iovecs 0 remaining view = some view' ∧
      view'.segment1 ++ view'.segment2 =
        view.segment1 ++ view.segment2 ++ iovecs.flatten.take remaining := by
  induction iovecs generalizing remaining view with
  | nil =>
    have hzero : remaining = 0 := Nat.le_zero.1 hrem
    rw [payloadViewLoop, if_pos hzero, flatten_nil, take_nil, append_nil]
    exact ⟨view, rfl, rfl⟩
  | cons iov iovecs ih =>
  rw [length_cons] at htwo
  rw [flatten_cons, length_append] at hrem
  rw [payloadViewLoop, flatten_cons, take_append]
  split
  · next hzero =>
    rw [hzero, take_zero, Nat.zero_sub, take_zero, append_nil, append_nil]
    exact ⟨view, rfl, rfl⟩
  next hne =>
  split
  · next hempty =>
    have hnil : iov = [] := List.length_eq_zero_iff.1 (Nat.le_zero.1 hempty)
    subst hnil
    rw [take_nil, nil_append, length_nil, Nat.sub_zero]
    exact ih hfirst (by omega) (by rwa [length_nil, Nat.zero_add] at hrem)
  next hiov =>
  have htaken : iov.take remaining ≠ [] := by
    intro hnil
    have hlen := congrArg List.length hnil
    rw [length_take, length_nil] at hlen
    omega
  have hleft : remaining - (iov.take remaining).length = remaining - iov.length := by
    rw [length_take]
    omega
  rw [drop_zero]
  dsimp only
  rw [hleft]
  split
  · next hone =>
    have hone := List.length_eq_zero_iff.1 hone
    have hused : RpcPayloadView.used { view with segment1 := iov.take remaining } = 1 := by
      rw [RpcPayloadView.used, if_neg htaken, if_pos (hfirst hone)]
    obtain ⟨view', hview, hbytes⟩ := @ih (remaining - iov.length)
      { view with segment1 := iov.take remaining } (fun h => absurd h htaken)
      (by rw [hused]; omega) (by omega)
    refine ⟨view', hview, ?_⟩
    rw [hbytes, hone, hfirst hone, append_nil, append_nil, nil_append]
  next hone =>
  have hone : view.segment1 ≠ [] := fun h => hone (List.length_eq_zero_iff.2 h)
  rw [RpcPayloadView.used, if_neg hone] at htwo
  split
  · next hsecond =>
    have hsecond := List.length_eq_zero_iff.1 hsecond
    have hused : RpcPayloadView.used { view with segment2 := iov.take remaining } = 2 := by
      rw [RpcPayloadView.used, if_neg hone, if_neg htaken]
    obtain ⟨view', hview, hbytes⟩ := @ih (remaining - iov.length)
      { view with segment2 := iov.take remaining } (fun h => absurd h hone)
      (by rw [hused]; omega) (by omega)
    refine ⟨view', hview, ?_⟩
    rw [hbytes, hsecond, append_nil, append_assoc]
  next hsecond =>
  rw [if_neg fun h => hsecond (List.length_eq_zero_iff.2 h)] at htwo
  omega

theorem payloadViewFromIovecs_eq (htwo : iovecs.length ≤ 2)
    (hbytes : bytes ≤ iovecs.flatten.length) :
    ∃ view, payloadViewFromIovecs iovecs 0 bytes = some view ∧
      view.segment1 ++ view.segment2 = iovecs.flatten.take bytes := by
  rw [payloadViewFromIovecs]
  split
  · next hzero =>
    rw [hzero, take_zero]
    exact ⟨_, rfl, rfl⟩
  exact payloadViewLoop_eq (fun _ => rfl) htwo hbytes

/-- A ring buffer shows what it holds in at most two segments. -/
theorem length_getReadIovecs_le (ring : RingBuffer) : ring.getReadIovecs.length ≤ 2 := by
  unfold RingBuffer.getReadIovecs
  split
  · exact Nat.zero_le _
  split
  · dsimp only
    split
    · exact Nat.le_succ 1
    exact Nat.le_refl 2
  exact Nat.le_succ 1

/-! ## Messages -/

/-- A payload that is borrowed. -/
def RpcPayload.borrow (view : RpcPayloadView) : RpcPayload where
  payloadView := view
  payloadOwned := false

@[simp]
theorem RpcPayload.bytes_borrow (view : RpcPayloadView) :
    (RpcPayload.borrow view).bytes = view.segment1 ++ view.segment2 := rfl

structure StreamMessage where
  streamId : UInt32 := 0
  payload : RpcPayload := {}
  isEnd : Bool := false
  messageType : UInt8 := RpcMessageType.STREAM_DATA
  deriving DecidableEq, Repr

/-- The bytes of a message, as a frame of the type. -/
def StreamMessage.serialize (message : StreamMessage) (type : UInt8) : Bytes :=
  let header : RpcHeader :=
    { type, requestId := message.streamId
      bodyLength := UInt32.ofNat message.payload.view.size }
  header.serialize ++ (message.payload.view.segment1 ++ message.payload.view.segment2)

/-! ## The reader -/

inductive StreamReadPhase
  | ReadHeader
  | ReadBody
  | DiscardInvalidControlBody
  deriving DecidableEq, Repr

structure StreamMessageReadState where
  maxFrameBytes : Nat := RPC_MAX_BODY_SIZE
  state : StreamReadPhase := .ReadHeader
  header : RpcHeader := {}
  bodyLength : Nat := 0
  error : Option RpcError := none
  deriving DecidableEq, Repr

def StreamMessageReadState.setReadError (reader : StreamMessageReadState) (error : RpcError) :
    StreamMessageReadState :=
  { reader with error := some error }

def controlBodyError : RpcError :=
  ⟨.INVALID_REQUEST, "RPC stream control frame must not carry a body"⟩

def frameLimitError : RpcError := ⟨.RESOURCE_EXHAUSTED, "RPC stream frame limit exceeded"⟩

def isControl (type : UInt8) : Bool :=
  type = RpcMessageType.STREAM_END ∨ type = RpcMessageType.STREAM_CANCEL

/-- What a reader works on. -/
structure StreamRead where
  reader : StreamMessageReadState
  message : StreamMessage
  ring : RingBuffer

namespace StreamRead

variable (s : StreamRead)

/-- The phase `ReadBody`. -/
def parseBody : Bool × StreamRead :=
  let readIovecs := s.ring.getReadIovecs
  if iovecsReadableBytes readIovecs < s.reader.bodyLength then (false, s)
  else
    match payloadViewFromIovecs readIovecs 0 s.reader.bodyLength with
    | none =>
      (true, { s with
        reader := s.reader.setReadError ⟨.DESERIALIZATION_ERROR, "Invalid stream payload view"⟩ })
    | some payloadView =>
      (true, {
        reader := { s.reader with state := .ReadHeader }
        message := { s.message with payload := .borrow payloadView }
        ring := s.ring.consume s.reader.bodyLength })

/-- A control frame ends the stream, also where it must not carry the body that it has. -/
def parseControl (totalReadable : Nat) : Bool × StreamRead :=
  let message := { s.message with isEnd := true, payload := .borrow {} }
  if s.reader.bodyLength ≠ 0 then
    if totalReadable < RPC_HEADER_SIZE + s.reader.bodyLength then
      (false, {
        reader := { s.reader with state := .DiscardInvalidControlBody }
        message
        ring := s.ring.consume RPC_HEADER_SIZE })
    else
      (true, {
        reader := { s.reader with state := .ReadHeader }.setReadError controlBodyError
        message
        ring := s.ring.consume (RPC_HEADER_SIZE + s.reader.bodyLength) })
  else
    (true, {
      reader := { s.reader with state := .ReadHeader }
      message
      ring := s.ring.consume RPC_HEADER_SIZE })

/-- The phase `ReadHeader`, which goes on to the body. -/
def parseHeader : Bool × StreamRead :=
  let readIovecs := s.ring.getReadIovecs
  let totalReadable := iovecsReadableBytes readIovecs
  if totalReadable < RPC_HEADER_SIZE then (false, s)
  else
    match RpcHeader.deserialize (copyFromIovecs readIovecs 0 RPC_HEADER_SIZE) with
    | none =>
      (true, { s with reader := s.reader.setReadError ⟨.INVALID_REQUEST, "Invalid header"⟩ })
    | some header =>
      let s : StreamRead :=
        { s with
          reader := { s.reader with header, bodyLength := header.bodyLength.toNat }
          message := { s.message with
            streamId := header.requestId
            messageType := header.type } }
      if isControl header.type then s.parseControl totalReadable
      else if s.reader.bodyLength = 0 then
        (true, {
          reader := { s.reader with state := .ReadHeader }
          message := { s.message with payload := .borrow {} }
          ring := s.ring.consume RPC_HEADER_SIZE })
      else if s.reader.maxFrameBytes < s.reader.bodyLength then
        (true, { s with
          reader := { s.reader.setReadError frameLimitError with state := .ReadHeader } })
      else
        parseBody { s with
          reader := { s.reader with state := .ReadBody }
          ring := s.ring.consume RPC_HEADER_SIZE }

/-- The phase `DiscardInvalidControlBody`. -/
def parseDiscard : Bool × StreamRead :=
  if iovecsReadableBytes s.ring.getReadIovecs < s.reader.bodyLength then (false, s)
  else
    (true, { s with
      reader := { s.reader with state := .ReadHeader }.setReadError controlBodyError
      ring := s.ring.consume s.reader.bodyLength })

def parseFromRingBuffer : Bool × StreamRead :=
  match s.reader.state with
  | .DiscardInvalidControlBody => s.parseDiscard
  | .ReadHeader => s.parseHeader
  | .ReadBody => s.parseBody

end StreamRead

end Galay.Rpc
