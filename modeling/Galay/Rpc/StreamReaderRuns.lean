import Galay.Rpc.StreamReader

/-!
# What the reader of a stream delivers

Frames arrive in any pieces and are read one after the other into the same message. Two of the
reader's branches lose the frames behind them: a message that was ended stays ended, and a frame that
is too long is not taken out of the buffer. Where neither is met (`Orderly`), what was delivered are
the first frames, and what is buffered is what has arrived of the others.
-/

namespace Galay.Rpc

open List
open Galay.Lib

/-- A frame whose header every reader takes. -/
structure StreamFrame where
  type : UInt8
  flags : UInt8 := 0
  reserved : UInt8 := 0
  streamId : UInt32
  payload : Bytes
  length_le : payload.length ≤ RPC_MAX_BODY_SIZE
  heartbeat : rpcHeartbeatBodyIsValid type (UInt32.ofNat payload.length) = true

/-- What a call of `getMessage` shows of the message. -/
structure StreamDelivery where
  streamId : UInt32
  messageType : UInt8
  isEnd : Bool
  payload : Bytes
  deriving DecidableEq, Repr

namespace StreamFrame

variable (frame : StreamFrame)

def header : RpcHeader where
  type := frame.type
  flags := frame.flags
  reserved := frame.reserved
  requestId := frame.streamId
  bodyLength := UInt32.ofNat frame.payload.length

def wire : Bytes := frame.header.serialize ++ frame.payload

def control : Bool := isControl frame.type

/-- What a reader is to make of a frame. -/
def outcome (maxFrameBytes : Nat) : Except RpcError StreamDelivery :=
  if frame.control then
    if frame.payload = [] then .ok ⟨frame.streamId, frame.type, true, []⟩
    else .error controlBodyError
  else if maxFrameBytes < frame.payload.length then .error frameLimitError
  else .ok ⟨frame.streamId, frame.type, false, frame.payload⟩

theorem length_wire : frame.wire.length = RPC_HEADER_SIZE + frame.payload.length := by
  rw [wire, length_append, RpcHeader.length_serialize]

theorem bodyLength : frame.header.bodyLength.toNat = frame.payload.length := by
  have hle := frame.length_le
  have hmax : RPC_MAX_BODY_SIZE = 16777216 := rfl
  exact Nat.mod_eq_of_lt (by omega)

theorem deserialize_header (rest : Bytes) :
    RpcHeader.deserialize (frame.header.serialize ++ rest) = some frame.header :=
  RpcHeader.deserialize_serialize_of_valid rfl rfl
    (Nat.le_trans (Nat.le_of_eq frame.bodyLength) frame.length_le) frame.heartbeat rest

end StreamFrame

/-! ## Runs -/

def StreamRead.takeResult (read : StreamRead) : Except RpcError StreamDelivery :=
  match read.reader.error with
  | some error => .error error
  | none =>
    .ok { read.message with payload := read.message.payload.bytes }

theorem StreamRead.takeResult_ok {read : StreamRead} (h : read.reader.error = none) :
    read.takeResult =
      .ok { read.message with payload := read.message.payload.bytes } := by
  rw [takeResult, h]

/-- The next call of `getMessage`, with the same message. -/
def StreamRead.renew (read : StreamRead) : StreamRead :=
  { read with reader := { maxFrameBytes := read.reader.maxFrameBytes } }

/-- A reader at work, what it has delivered and what has been received for it. -/
structure StreamReads where
  read : StreamRead
  outcomes : List (Except RpcError StreamDelivery) := []
  received : Bytes := []

inductive StreamEvent
  | received (bytes : Bytes)
  | parse
  deriving Repr

namespace StreamReads

def start (maxFrameBytes : Nat) (message : StreamMessage) (ring : RingBuffer) : StreamReads where
  read := { reader := { maxFrameBytes }, message, ring }

/-- Bytes are received into the room that the ring has, or what is buffered is parsed. -/
def step (s : StreamReads) : StreamEvent → Option StreamReads
  | .received bytes =>
    if bytes.length ≤ s.read.ring.writable then
      some { s with
        read := { s.read with ring := s.read.ring.receive bytes }
        received := s.received ++ bytes }
    else none
  | .parse =>
    match s.read.parseFromRingBuffer with
    | (false, read) => some { s with read }
    | (true, read) =>
      some { s with
        read := read.renew
        outcomes := s.outcomes ++ [read.takeResult] }

def run (s : StreamReads) : List StreamEvent → Option StreamReads
  | [] => some s
  | event :: events => (s.step event).bind fun s => s.run events

end StreamReads

/-- A frame that is not a control frame keeps to the limit and does not come behind a control frame.
The flag says whether one has come before. -/
def Orderly (maxFrameBytes : Nat) : Bool → List StreamFrame → Prop
  | _, [] => True
  | ended, frame :: frames =>
    (frame.control = false → ended = false ∧ frame.payload.length ≤ maxFrameBytes) ∧
      Orderly maxFrameBytes (ended || frame.control) frames

/-! ## Where a reader stands -/

/-- A reader, what has arrived of the frames that are not delivered, and those frames. -/
inductive Position (maxFrameBytes : Nat) : StreamRead → Bytes → List StreamFrame → Prop
  | header {read : StreamRead} {rest : List StreamFrame}
    (hst : read.reader.state = .ReadHeader) (herr : read.reader.error = none)
    (hmax : read.reader.maxFrameBytes = maxFrameBytes)
    (horder : Orderly maxFrameBytes read.message.isEnd rest) :
    Position maxFrameBytes read read.ring.contents rest
  | body {read : StreamRead} {frame : StreamFrame} {rest : List StreamFrame}
    (hst : read.reader.state = .ReadBody) (herr : read.reader.error = none)
    (hmax : read.reader.maxFrameBytes = maxFrameBytes)
    (hlen : read.reader.bodyLength = frame.payload.length)
    (hid : read.message.streamId = frame.streamId) (htype : read.message.messageType = frame.type)
    (hend : read.message.isEnd = false) (hctrl : frame.control = false)
    (hfits : frame.payload.length ≤ maxFrameBytes) (horder : Orderly maxFrameBytes false rest) :
    Position maxFrameBytes read (frame.header.serialize ++ read.ring.contents) (frame :: rest)
  | discard {read : StreamRead} {frame : StreamFrame} {rest : List StreamFrame}
    (hst : read.reader.state = .DiscardInvalidControlBody)
    (hmax : read.reader.maxFrameBytes = maxFrameBytes)
    (hlen : read.reader.bodyLength = frame.payload.length)
    (hend : read.message.isEnd = true) (hctrl : frame.control = true)
    (hpay : frame.payload ≠ []) (horder : Orderly maxFrameBytes true rest) :
    Position maxFrameBytes read (frame.header.serialize ++ read.ring.contents) (frame :: rest)

/-- What a call of `parseFromRingBuffer` does: it delivers the first frame if that has arrived, and
else waits for a part of it. -/
inductive Parsed (maxFrameBytes : Nat) (read : StreamRead) : Bytes → List StreamFrame → Prop
  | pending {read' : StreamRead} {pending : Bytes} {rest : List StreamFrame} {bound : Nat}
    (hparse : read.parseFromRingBuffer = (false, read'))
    (hpos : Position maxFrameBytes read' pending rest)
    (hshort : ∀ frame rest', rest = frame :: rest' → pending.length < frame.wire.length)
    (hroom : read'.ring.readable < bound)
    (hbound : bound = RPC_HEADER_SIZE ∨ ∃ frame ∈ rest, bound = frame.payload.length) :
    Parsed maxFrameBytes read pending rest
  | delivered {read' : StreamRead} {frame : StreamFrame} {pending : Bytes}
    {rest : List StreamFrame} (hparse : read.parseFromRingBuffer = (true, read'))
    (hres : read'.takeResult = frame.outcome maxFrameBytes)
    (hpos : Position maxFrameBytes read'.renew pending rest) :
    Parsed maxFrameBytes read (frame.wire ++ pending) (frame :: rest)

section

variable {maxFrameBytes : Nat} {read : StreamRead} {frame : StreamFrame} {rest : List StreamFrame}
  {pending : Bytes}

theorem readable_eq (ring : RingBuffer) :
    iovecsReadableBytes ring.getReadIovecs = ring.contents.length := by
  rw [iovecsReadableBytes_eq, RingBuffer.flatten_getReadIovecs]

theorem readable_lt {ring : RingBuffer} (h : ring.contents.length < n) : ring.readable < n := by
  rwa [RingBuffer.length_contents] at h

theorem split_of_prefix {data payload wires : Bytes} (harrived : data <+: payload ++ wires)
    (hlen : payload.length ≤ data.length) : ∃ tail, data = payload ++ tail := by
  obtain ⟨tail, htail⟩ := prefix_of_prefix_length_le (prefix_append payload wires) harrived
    hlen
  exact ⟨tail, htail.symm⟩

theorem parsed_body (herr : read.reader.error = none)
    (hmax : read.reader.maxFrameBytes = maxFrameBytes)
    (hlen : read.reader.bodyLength = frame.payload.length)
    (hid : read.message.streamId = frame.streamId) (htype : read.message.messageType = frame.type)
    (hend : read.message.isEnd = false) (hctrl : frame.control = false)
    (hfits : frame.payload.length ≤ maxFrameBytes) (horder : Orderly maxFrameBytes false rest)
    (harrived : read.ring.contents <+: frame.payload ++ rest.flatMap StreamFrame.wire) :
    (read.parseBody = (false, read) ∧ read.ring.contents.length < frame.payload.length) ∨
      ∃ read' tail, read.parseBody = (true, read') ∧ read.ring.contents = frame.payload ++ tail ∧
        read'.takeResult = frame.outcome maxFrameBytes ∧
        Position maxFrameBytes read'.renew tail rest := by
  rw [StreamRead.parseBody]
  dsimp only
  rw [readable_eq, hlen]
  split
  · next hlt => exact .inl ⟨rfl, hlt⟩
  next hge =>
  obtain ⟨tail, htail⟩ := split_of_prefix harrived (Nat.le_of_not_lt hge)
  have hbytes : frame.payload.length ≤ read.ring.getReadIovecs.flatten.length := by
    rw [RingBuffer.flatten_getReadIovecs]
    exact Nat.le_of_not_lt hge
  obtain ⟨view, hview, hsegments⟩ :=
    payloadViewFromIovecs_eq (length_getReadIovecs_le read.ring) hbytes
  rw [RingBuffer.flatten_getReadIovecs, htail, take_left] at hsegments
  have hcons : (read.ring.consume frame.payload.length).contents = tail := by
    rw [RingBuffer.contents_consume, htail, drop_left]
  rw [hview]
  refine .inr ⟨_, tail, rfl, htail, ?_, ?_⟩
  · rw [StreamRead.takeResult, StreamFrame.outcome, hctrl, herr]
    dsimp only
    rw [RpcPayload.bytes_borrow, hsegments, hid, htype, hend, if_neg (by decide),
      if_neg (Nat.not_lt_of_le hfits)]
  have hpos := @Position.header maxFrameBytes (StreamRead.renew
    { reader := { read.reader with state := .ReadHeader }
      message := { read.message with payload := .borrow view }
      ring := read.ring.consume frame.payload.length })
    rest rfl rfl hmax (hend ▸ horder)
  rwa [StreamRead.renew, hcons] at hpos

/-- A reader that has taken a header in. -/
def announced (read : StreamRead) (frame : StreamFrame) : StreamRead :=
  { read with
    reader := { read.reader with header := frame.header, bodyLength := frame.payload.length }
    message := { read.message with streamId := frame.streamId, messageType := frame.type } }

theorem parseHeader_eq {tail : Bytes}
    (htail : read.ring.contents = frame.header.serialize ++ tail) :
    read.parseHeader =
      if frame.control then (announced read frame).parseControl (RPC_HEADER_SIZE + tail.length)
      else if frame.payload.length = 0 then
        (true, {
          reader := { (announced read frame).reader with state := .ReadHeader }
          message := { (announced read frame).message with payload := .borrow {} }
          ring := read.ring.consume RPC_HEADER_SIZE })
      else if read.reader.maxFrameBytes < frame.payload.length then
        (true, { announced read frame with
          reader :=
            { (announced read frame).reader.setReadError frameLimitError with
              state := .ReadHeader } })
      else
        StreamRead.parseBody { announced read frame with
          reader := { (announced read frame).reader with state := .ReadBody }
          ring := read.ring.consume RPC_HEADER_SIZE } := by
  have hlen : iovecsReadableBytes read.ring.getReadIovecs = RPC_HEADER_SIZE + tail.length := by
    rw [readable_eq, htail, length_append, RpcHeader.length_serialize]
  have hhdr : copyFromIovecs read.ring.getReadIovecs 0 RPC_HEADER_SIZE =
      frame.header.serialize := by
    rw [copyFromIovecs_eq, RingBuffer.flatten_getReadIovecs, htail, drop_zero]
    exact take_left' (RpcHeader.length_serialize _)
  have hread : RpcHeader.deserialize frame.header.serialize = some frame.header := by
    have hread := frame.deserialize_header []
    rwa [append_nil] at hread
  rw [StreamRead.parseHeader]
  dsimp only
  rw [hlen, if_neg (Nat.not_lt_of_le (Nat.le_add_right _ _)), hhdr, hread]
  dsimp only
  rw [frame.bodyLength]
  rfl

theorem wire_of_empty (h : frame.payload = []) : frame.wire = frame.header.serialize := by
  rw [StreamFrame.wire, h, append_nil]

theorem contents_header {tail : Bytes}
    (htail : read.ring.contents = frame.header.serialize ++ tail) :
    (read.ring.consume RPC_HEADER_SIZE).contents = tail := by
  rw [RingBuffer.contents_consume, htail]
  exact drop_left' (RpcHeader.length_serialize _)

theorem parsed_control {tail : Bytes} (hmax : read.reader.maxFrameBytes = maxFrameBytes)
    (herr : read.reader.error = none) (hst : read.reader.state = .ReadHeader)
    (htail : read.ring.contents = frame.header.serialize ++ tail) (hctrl : frame.control = true)
    (horder : Orderly maxFrameBytes true rest)
    (harrived : tail <+: frame.payload ++ rest.flatMap StreamFrame.wire) :
    Parsed maxFrameBytes read (frame.header.serialize ++ tail) (frame :: rest) := by
  have hcons := contents_header htail
  have hparse : read.parseFromRingBuffer =
      (announced read frame).parseControl (RPC_HEADER_SIZE + tail.length) := by
    rw [StreamRead.parseFromRingBuffer, hst]
    dsimp only
    rw [parseHeader_eq htail, if_pos hctrl]
  by_cases hempty : frame.payload = []
  · have hzero : ¬ (announced read frame).reader.bodyLength ≠ 0 := fun h =>
      h (List.length_eq_zero_iff.2 hempty)
    rw [StreamRead.parseControl, if_neg hzero] at hparse
    have hpos := @Position.header maxFrameBytes (StreamRead.renew
      { reader := (announced read frame).reader
        message := { (announced read frame).message with isEnd := true, payload := .borrow {} }
        ring := read.ring.consume RPC_HEADER_SIZE }) rest rfl rfl hmax horder
    rw [StreamRead.renew, hcons] at hpos
    rw [← wire_of_empty hempty]
    refine .delivered hparse ?_ hpos
    refine Eq.trans (StreamRead.takeResult_ok (by exact herr)) ?_
    rw [StreamFrame.outcome, if_pos hctrl, if_pos hempty]
    rfl
  have hne : (announced read frame).reader.bodyLength ≠ 0 := fun h =>
    hempty (List.length_eq_zero_iff.1 h)
  rw [StreamRead.parseControl, if_pos hne] at hparse
  split at hparse
  · next hlt =>
    have hlt : RPC_HEADER_SIZE + tail.length < RPC_HEADER_SIZE + frame.payload.length := hlt
    have hpos := @Position.discard maxFrameBytes
      { reader :=
          { (announced read frame).reader with state := .DiscardInvalidControlBody }
        message := { (announced read frame).message with isEnd := true, payload := .borrow {} }
        ring := read.ring.consume RPC_HEADER_SIZE } frame rest rfl hmax rfl rfl hctrl hempty
      horder
    rw [hcons] at hpos
    refine .pending hparse hpos (fun other rest' h => ?_) ?_
      (.inr ⟨frame, mem_cons_self, rfl⟩)
    · obtain ⟨rfl, _⟩ := List.cons.inj h
      rw [frame.length_wire, length_append, RpcHeader.length_serialize]
      exact hlt
    show (read.ring.consume RPC_HEADER_SIZE).readable < _
    rw [← RingBuffer.length_contents, hcons]
    omega
  next hge =>
  have hge : ¬ RPC_HEADER_SIZE + tail.length < RPC_HEADER_SIZE + frame.payload.length := hge
  obtain ⟨after, rfl⟩ := split_of_prefix harrived (by omega)
  have hboth : (read.ring.consume (RPC_HEADER_SIZE + frame.payload.length)).contents = after := by
    rw [RingBuffer.contents_consume, htail, ← append_assoc]
    refine drop_left' ?_
    rw [length_append, RpcHeader.length_serialize]
  have hpos := @Position.header maxFrameBytes (StreamRead.renew
    { reader := (announced read frame).reader
      message := { (announced read frame).message with isEnd := true, payload := .borrow {} }
      ring := read.ring.consume (RPC_HEADER_SIZE + frame.payload.length) })
    rest rfl rfl hmax horder
  rw [StreamRead.renew, hboth] at hpos
  rw [← append_assoc]
  refine .delivered hparse ?_ hpos
  rw [StreamFrame.outcome, if_pos hctrl, if_neg hempty]
  rfl

/-- A frame that carries data is delivered, with what it carries. -/
theorem parsed_data {tail : Bytes} (hmax : read.reader.maxFrameBytes = maxFrameBytes)
    (herr : read.reader.error = none) (hst : read.reader.state = .ReadHeader)
    (htail : read.ring.contents = frame.header.serialize ++ tail) (hctrl : frame.control = false)
    (hend : read.message.isEnd = false) (hfits : frame.payload.length ≤ maxFrameBytes)
    (horder : Orderly maxFrameBytes false rest)
    (harrived : tail <+: frame.payload ++ rest.flatMap StreamFrame.wire) :
    Parsed maxFrameBytes read (frame.header.serialize ++ tail) (frame :: rest) := by
  have hcons := contents_header htail
  have hparse := parseHeader_eq htail
  rw [if_neg (by rw [hctrl]; decide), hmax, if_neg (Nat.not_lt_of_le hfits)] at hparse
  have hstart : read.parseFromRingBuffer = read.parseHeader := by
    rw [StreamRead.parseFromRingBuffer, hst]
  rw [← hstart] at hparse
  split at hparse
  · next hzero =>
    have hempty := List.length_eq_zero_iff.1 hzero
    have hpos := @Position.header maxFrameBytes (StreamRead.renew
      { reader := (announced read frame).reader
        message := { (announced read frame).message with payload := .borrow {} }
        ring := read.ring.consume RPC_HEADER_SIZE }) rest rfl rfl hmax (hend ▸ horder)
    rw [StreamRead.renew, hcons] at hpos
    rw [← wire_of_empty hempty]
    refine .delivered hparse ?_ hpos
    refine Eq.trans (StreamRead.takeResult_ok (by exact herr)) ?_
    rw [StreamFrame.outcome, if_neg (by rw [hctrl]; decide), if_neg (Nat.not_lt_of_le hfits),
      hempty, ← hend]
    rfl
  obtain ⟨hwait, hlt⟩ | ⟨read', after, hdone, hafter, hres, hpos⟩ :=
    @parsed_body maxFrameBytes { announced read frame with
      reader := { (announced read frame).reader with state := .ReadBody }
      ring := read.ring.consume RPC_HEADER_SIZE } frame rest herr hmax rfl rfl rfl hend hctrl
      hfits horder (by rwa [hcons])
  · have hpos := @Position.body maxFrameBytes { announced read frame with
      reader := { (announced read frame).reader with state := .ReadBody }
      ring := read.ring.consume RPC_HEADER_SIZE } frame rest rfl herr hmax rfl rfl rfl hend
      hctrl hfits horder
    rw [hcons] at hpos hlt
    refine .pending (hparse.trans hwait) hpos (fun other rest' h => ?_) ?_
      (.inr ⟨frame, mem_cons_self, rfl⟩)
    · obtain ⟨rfl, _⟩ := List.cons.inj h
      rw [frame.length_wire, length_append, RpcHeader.length_serialize]
      omega
    rw [← RingBuffer.length_contents, hcons]
    exact hlt
  rw [hcons] at hafter
  rw [hafter, ← append_assoc]
  exact .delivered (hparse.trans hdone) hres hpos

section

variable (h : Position maxFrameBytes read pending rest)
include h

theorem Position.parsed (harrived : pending <+: rest.flatMap StreamFrame.wire) :
    Parsed maxFrameBytes read pending rest := by
  cases h with
  | header hst herr hmax horder =>
    by_cases hshort : read.ring.contents.length < RPC_HEADER_SIZE
    · have hparse : read.parseFromRingBuffer = (false, read) := by
        rw [StreamRead.parseFromRingBuffer, hst]
        dsimp only
        rw [StreamRead.parseHeader, readable_eq]
        exact if_pos hshort
      refine .pending hparse (.header hst herr hmax horder) (fun frame _ _ => ?_)
        (readable_lt hshort) (.inl rfl)
      rw [frame.length_wire]
      omega
    cases rest with
    | nil =>
      rw [flatMap_nil, prefix_nil] at harrived
      rw [harrived] at hshort
      exact absurd (by decide) hshort
    | cons frame rest =>
    rw [flatMap_cons, StreamFrame.wire, append_assoc] at harrived
    obtain ⟨tail, htail⟩ := split_of_prefix harrived (by
      rw [RpcHeader.length_serialize]
      omega)
    have hrest : tail <+: frame.payload ++ rest.flatMap StreamFrame.wire := by
      rw [htail] at harrived
      exact (prefix_append_right_inj _).1 harrived
    obtain ⟨hdata, horder⟩ := horder
    rw [htail]
    cases hctrl : frame.control with
    | true =>
      rw [hctrl, Bool.or_true] at horder
      exact parsed_control hmax herr hst htail hctrl horder hrest
    | false =>
    obtain ⟨hend, hfits⟩ := hdata hctrl
    rw [hctrl, hend, Bool.or_false] at horder
    exact parsed_data hmax herr hst htail hctrl hend hfits horder hrest
  | @body frame rest hst herr hmax hlen hid htype hend hctrl hfits horder =>
    rw [flatMap_cons, StreamFrame.wire, append_assoc] at harrived
    have hrest := (prefix_append_right_inj _).1 harrived
    have hparse : read.parseFromRingBuffer = read.parseBody := by
      rw [StreamRead.parseFromRingBuffer, hst]
    obtain ⟨hwait, hlt⟩ | ⟨read', after, hdone, hafter, hres, hpos⟩ :=
      parsed_body herr hmax hlen hid htype hend hctrl hfits horder hrest
    · refine .pending (hparse.trans hwait)
        (.body hst herr hmax hlen hid htype hend hctrl hfits horder)
        (fun other rest' h => ?_) (readable_lt hlt)
        (.inr ⟨frame, mem_cons_self, rfl⟩)
      obtain ⟨rfl, _⟩ := List.cons.inj h
      rw [frame.length_wire, length_append, RpcHeader.length_serialize]
      omega
    rw [hafter, ← append_assoc]
    exact .delivered (hparse.trans hdone) hres hpos
  | @discard frame rest hst hmax hlen hend hctrl hpay horder =>
  rw [flatMap_cons, StreamFrame.wire, append_assoc] at harrived
  have hrest := (prefix_append_right_inj _).1 harrived
  have hparse : read.parseFromRingBuffer = read.parseDiscard := by
    rw [StreamRead.parseFromRingBuffer, hst]
  rw [StreamRead.parseDiscard, readable_eq, hlen] at hparse
  split at hparse
  · next hlt =>
    refine .pending hparse (.discard hst hmax hlen hend hctrl hpay horder)
      (fun other rest' h => ?_) (readable_lt hlt)
      (.inr ⟨frame, mem_cons_self, rfl⟩)
    obtain ⟨rfl, _⟩ := List.cons.inj h
    rw [frame.length_wire, length_append, RpcHeader.length_serialize]
    omega
  next hge =>
  obtain ⟨after, hafter⟩ := split_of_prefix hrest (Nat.le_of_not_lt hge)
  have hcons : (read.ring.consume frame.payload.length).contents = after := by
    rw [RingBuffer.contents_consume, hafter, drop_left]
  have hpos := @Position.header maxFrameBytes
    (StreamRead.renew { read with ring := read.ring.consume frame.payload.length }) rest rfl rfl
    hmax (by
      show Orderly maxFrameBytes read.message.isEnd rest
      rwa [hend])
  rw [StreamRead.renew, hcons] at hpos
  rw [hafter, ← append_assoc]
  refine .delivered hparse ?_ hpos
  rw [StreamFrame.outcome, if_pos hctrl, if_neg hpay]
  rfl

theorem Position.receive (hroom : bytes.length ≤ read.ring.writable) :
    Position maxFrameBytes { read with ring := read.ring.receive bytes } (pending ++ bytes) rest := by
  have hcont := RingBuffer.contents_receive _ hroom
  cases h with
  | header hst herr hmax horder =>
    rw [← hcont]
    exact .header hst herr hmax horder
  | body hst herr hmax hlen hid htype hend hctrl hfits horder =>
    rw [append_assoc, ← hcont]
    exact .body hst herr hmax hlen hid htype hend hctrl hfits horder
  | discard hst hmax hlen hend hctrl hpay horder =>
  rw [append_assoc, ← hcont]
  exact .discard hst hmax hlen hend hctrl hpay horder

/-- Between two frames nothing is buffered but what has arrived of those that are left. -/
theorem Position.pending_eq (hst : read.reader.state = .ReadHeader) :
    pending = read.ring.contents := by
  cases h with
  | header => rfl
  | body hbody => exact absurd (hbody.symm.trans hst) nofun
  | discard hdiscard => exact absurd (hdiscard.symm.trans hst) nofun

end

end

/-! ## What holds in a run -/

namespace StreamReads

variable {maxFrameBytes : Nat} {frames done rest : List StreamFrame} {s s' : StreamReads}

/-- The frames that were delivered, and where the reader stands in the others. -/
structure Inv (maxFrameBytes : Nat) (s : StreamReads) (done rest : List StreamFrame) : Prop where
  outcomes : s.outcomes = done.map fun frame => frame.outcome maxFrameBytes
  position : ∃ pending, s.received = done.flatMap StreamFrame.wire ++ pending ∧
    Position maxFrameBytes s.read pending rest

/-- What is asked of a reader that has delivered the frames `done` and not the frames `rest`. -/
structure Reads (maxFrameBytes : Nat) (s : StreamReads) (done rest : List StreamFrame) : Prop where
  outcomes : s.outcomes = done.map fun frame => frame.outcome maxFrameBytes
  /-- Exactly the bytes of the frames have been consumed. -/
  consumed (h : s.read.reader.state = .ReadHeader) :
    s.received = done.flatMap StreamFrame.wire ++ s.read.ring.contents
  /-- A frame that has arrived is delivered next. -/
  delivers {frame : StreamFrame} {rest' : List StreamFrame} (h : rest = frame :: rest')
    (hlen : (done.flatMap StreamFrame.wire ++ frame.wire).length ≤ s.received.length) :
    ∃ s', s.step .parse = some s' ∧ s'.outcomes = s.outcomes ++ [frame.outcome maxFrameBytes] ∧
      s'.read.reader.state = .ReadHeader ∧
      s.received = (done ++ [frame]).flatMap StreamFrame.wire ++ s'.read.ring.contents
  /-- A reader that waits has room for more, if the ring is large enough for every frame. -/
  waits {s' : StreamReads} (h : s.step .parse = some s') (hsame : s'.outcomes = s.outcomes)
    (hhdr : RPC_HEADER_SIZE ≤ s'.read.ring.capacity)
    (hframes : ∀ frame ∈ rest, frame.payload.length ≤ s'.read.ring.capacity) :
    0 < s'.read.ring.writable

section

variable (h : s.Inv maxFrameBytes done rest)
include h

theorem Inv.received (hstep : s.step (.received bytes) = some s') :
    s'.Inv maxFrameBytes done rest := by
  obtain ⟨pending, hrecv, hpos⟩ := h.position
  rw [step] at hstep
  split at hstep
  · next hroom =>
    cases hstep
    refine ⟨h.outcomes, pending ++ bytes, ?_, hpos.receive hroom⟩
    rw [hrecv, append_assoc]
  cases hstep

/-- A call delivers the next frame or nothing. -/
theorem Inv.parse (harrived : s.received <+: (done ++ rest).flatMap StreamFrame.wire)
    (hstep : s.step .parse = some s') :
    (s'.Inv maxFrameBytes done rest ∧ s'.outcomes = s.outcomes ∧
      (∀ frame rest', rest = frame :: rest' →
        s.received.length < (done.flatMap StreamFrame.wire ++ frame.wire).length) ∧
      ∃ bound, s'.read.ring.readable < bound ∧
        (bound = RPC_HEADER_SIZE ∨ ∃ frame ∈ rest, bound = frame.payload.length)) ∨
    ∃ frame rest', rest = frame :: rest' ∧ s'.Inv maxFrameBytes (done ++ [frame]) rest' ∧
      s'.received = s.received ∧ s'.read.reader.state = .ReadHeader := by
  obtain ⟨pending, hrecv, hat⟩ := h.position
  have hrest : pending <+: rest.flatMap StreamFrame.wire := by
    rw [hrecv, flatMap_append] at harrived
    exact (prefix_append_right_inj _).1 harrived
  have hparsed := hat.parsed hrest
  rw [step] at hstep
  cases hparsed with
  | @pending read' _ _ bound hparse hpos hshort hroom hbound =>
    rw [hparse] at hstep
    cases hstep
    refine .inl ⟨⟨h.outcomes, pending, hrecv, hpos⟩, rfl, fun frame rest' heq => ?_, bound,
      hroom, hbound⟩
    rw [hrecv, length_append, length_append]
    exact Nat.add_lt_add_left (hshort frame rest' heq) _
  | @delivered read' frame after rest' hparse hres hpos =>
  rw [hparse] at hstep
  cases hstep
  refine .inr ⟨frame, rest', rfl, ⟨?_, after, ?_, hpos⟩, rfl, rfl⟩
  · rw [map_append, ← h.outcomes, hres]
    rfl
  rw [hrecv, flatMap_append, append_assoc, flatMap_singleton]

theorem Inv.reads (harrived : s.received <+: (done ++ rest).flatMap StreamFrame.wire) :
    s.Reads maxFrameBytes done rest where
  outcomes := h.outcomes
  consumed hst := by
    obtain ⟨pending, hrecv, hpos⟩ := h.position
    rw [hrecv, hpos.pending_eq hst]
  delivers {frame rest'} heq hlen := by
    have hsome : ∃ s', s.step .parse = some s' := by
      rw [step]
      rcases s.read.parseFromRingBuffer with ⟨_ | _, read'⟩
      · exact ⟨_, rfl⟩
      exact ⟨_, rfl⟩
    obtain ⟨s', hstep⟩ := hsome
    obtain ⟨_, _, hshort, _⟩ | ⟨other, rest'', heq', hinv, hsame, hst⟩ := h.parse harrived hstep
    · exact absurd hlen (Nat.not_le_of_lt (hshort frame rest' heq))
    obtain ⟨rfl, rfl⟩ := List.cons.inj (heq.symm.trans heq')
    obtain ⟨pending, hrecv, hpos⟩ := hinv.position
    refine ⟨s', hstep, ?_, hst, ?_⟩
    · rw [hinv.outcomes, h.outcomes, map_append]
      rfl
    rw [← hsame, hrecv, hpos.pending_eq hst]
  waits {s'} hstep hsame hhdr hframes := by
    obtain ⟨_, _, _, bound, hlt, hbound⟩ | ⟨frame, rest', _, hinv, _, _⟩ := h.parse harrived hstep
    · have hle : bound ≤ s'.read.ring.capacity := by
        rcases hbound with rfl | ⟨frame, hmem, rfl⟩
        · exact hhdr
        exact hframes frame hmem
      exact Nat.sub_pos_of_lt (Nat.lt_of_lt_of_le hlt hle)
    have hlen := congrArg List.length (hsame.symm.trans hinv.outcomes)
    rw [h.outcomes, length_map, length_map, length_append] at hlen
    exact absurd hlen (Nat.ne_of_lt (Nat.lt_succ_self _))

end

theorem received_of_step (hstep : s.step event = some s') : s.received <+: s'.received := by
  cases event with
  | received bytes =>
    rw [step] at hstep
    split at hstep
    · cases hstep
      exact prefix_append _ _
    cases hstep
  | parse =>
  rw [step] at hstep
  rcases hparse : s.read.parseFromRingBuffer with ⟨_ | _, read'⟩
  · rw [hparse] at hstep
    cases hstep
    exact prefix_refl _
  rw [hparse] at hstep
  cases hstep
  exact prefix_refl _

theorem received_of_run (hrun : s.run events = some s') : s.received <+: s'.received := by
  induction events generalizing s with
  | nil =>
    cases hrun
    exact prefix_refl _
  | cons event events ih =>
  obtain ⟨middle, hstep, hrun⟩ := Option.bind_eq_some_iff.1 hrun
  exact (received_of_step hstep).trans (ih hrun)

theorem Inv.run {events : List StreamEvent} (h : s.Inv maxFrameBytes done rest)
    (hrun : s.run events = some s')
    (harrived : s'.received <+: (done ++ rest).flatMap StreamFrame.wire) :
    ∃ done' rest', done ++ rest = done' ++ rest' ∧ s'.Inv maxFrameBytes done' rest' := by
  induction events generalizing s done rest with
  | nil =>
    cases hrun
    exact ⟨done, rest, rfl, h⟩
  | cons event events ih =>
  obtain ⟨middle, hstep, hafter⟩ := Option.bind_eq_some_iff.1 hrun
  have hmiddle := (received_of_run hafter).trans harrived
  cases event with
  | received bytes => exact ih (h.received hstep) hafter harrived
  | parse =>
  obtain ⟨hinv, _⟩ | ⟨frame, rest', rfl, hinv, _, _⟩ :=
    h.parse ((received_of_step hstep).trans hmiddle) hstep
  · exact ih hinv hafter harrived
  have hsplit : done ++ frame :: rest' = done ++ [frame] ++ rest' := by
    rw [append_assoc]
    rfl
  rw [hsplit] at harrived ⊢
  exact ih hinv hafter harrived

/-- Orderly frames are delivered one after the other, in whatever pieces they arrive. -/
theorem orderly_frames_read {message : StreamMessage} {ring : RingBuffer}
    (hempty : ring.contents = []) (horder : Orderly maxFrameBytes message.isEnd frames)
    {events : List StreamEvent} (hrun : (start maxFrameBytes message ring).run events = some s)
    (hrecv : s.received <+: frames.flatMap StreamFrame.wire) :
    ∃ done rest, frames = done ++ rest ∧ s.Reads maxFrameBytes done rest := by
  have hstart : (start maxFrameBytes message ring).Inv maxFrameBytes [] frames := by
    have hpos := @Position.header maxFrameBytes (start maxFrameBytes message ring).read frames
      rfl rfl rfl horder
    exact ⟨rfl, _, hempty.symm, hpos⟩
  obtain ⟨done, rest, hsplit, hinv⟩ := hstart.run hrun hrecv
  rw [nil_append] at hsplit
  rw [hsplit] at hrecv
  exact ⟨done, rest, hsplit, hinv.reads hrecv⟩

/-- Sixty-four bytes without contents. -/
def smallRing : RingBuffer where
  backend := .Vector
  buffer := List.replicate 64 0
  readIndex := 0
  writeIndex := 0
  size := 0
  size_le := Nat.zero_le _
  readIndex_lt := by decide
  writeIndex_eq := rfl

def dataFrame : StreamFrame where
  type := RpcMessageType.STREAM_DATA
  streamId := 7
  payload := [1, 2]
  length_le := by decide
  heartbeat := rfl

def endFrame : StreamFrame where
  type := RpcMessageType.STREAM_END
  streamId := 7
  payload := []
  length_le := by decide
  heartbeat := rfl

/-- Data and the end of the stream, in two pieces. -/
theorem orderly_frames_read_two :
    ∃ s done rest, (start 16 {} smallRing).run
        [.received ((dataFrame.wire ++ endFrame.wire).take 9), .parse,
          .received ((dataFrame.wire ++ endFrame.wire).drop 9), .parse, .parse] = some s ∧
      [dataFrame, endFrame] = done ++ rest ∧ s.Reads 16 done rest := by
  have hrecv : ((start 16 {} smallRing).run
      [.received ((dataFrame.wire ++ endFrame.wire).take 9), .parse,
        .received ((dataFrame.wire ++ endFrame.wire).drop 9), .parse, .parse]).map received =
      some (dataFrame.wire ++ endFrame.wire) := by decide
  obtain ⟨s, hrun, hall⟩ := Option.map_eq_some_iff.1 hrecv
  have horder : Orderly 16 false [dataFrame, endFrame] :=
    ⟨fun _ => ⟨rfl, by decide⟩, fun h => absurd h (by decide), trivial⟩
  have harrived : s.received <+: [dataFrame, endFrame].flatMap StreamFrame.wire := by
    rw [hall]
    exact prefix_refl _
  obtain ⟨done, rest, hsplit, hreads⟩ := orderly_frames_read rfl horder hrun harrived
  exact ⟨s, done, rest, hrun, hsplit, hreads⟩

/-- The end of a stream is read and then data into the same message, which is still ended. -/
theorem not_frames_read :
    ¬ ∀ (frames : List StreamFrame) (events : List StreamEvent) (s : StreamReads),
      (start 16 {} smallRing).run events = some s →
      s.received <+: frames.flatMap StreamFrame.wire →
      ∃ done rest, frames = done ++ rest ∧ s.Reads 16 done rest := by
  intro h
  have hboth : ((start 16 {} smallRing).run
      [.received (endFrame.wire ++ dataFrame.wire), .parse, .parse]).map
        (fun s => (s.received, s.outcomes)) =
      some (endFrame.wire ++ dataFrame.wire,
        [.ok ⟨7, RpcMessageType.STREAM_END, true, []⟩,
          .ok ⟨7, RpcMessageType.STREAM_DATA, true, [1, 2]⟩]) := by decide
  obtain ⟨s, hrun, heq⟩ := Option.map_eq_some_iff.1 hboth
  obtain ⟨hrecv, houtcomes⟩ := Prod.mk.inj heq
  have harrived : s.received <+: [endFrame, dataFrame].flatMap StreamFrame.wire := by
    rw [hrecv]
    exact prefix_refl _
  obtain ⟨done, rest, hsplit, hreads⟩ := h _ _ s hrun harrived
  have hdone := hreads.outcomes
  rw [houtcomes] at hdone
  rcases done with _ | ⟨first, _ | ⟨second, done⟩⟩
  · cases hdone
  · cases congrArg List.length hdone
  obtain ⟨rfl, hsecond⟩ := List.cons.inj hsplit
  obtain ⟨rfl, _⟩ := List.cons.inj hsecond
  cases hdone

end StreamReads

end Galay.Rpc
