import Galay.Ws.MessageReader

/-!
# Messages and their fragments

What a sequence of frames says: a data message may come in fragments, and control frames may stand
between them. A session reads such a sequence with one run of `WsMessageReadState` after the other
on the same ring buffer; a run may be handed any string to write to.
-/

namespace Galay.Ws

/-- A message as it is delivered: its opcode and its payload. -/
abbrev Message := WsOpcode × Bytes

/-- The bytes of a frame as its reader gets them: servers read masked frames, clients plain ones. -/
def WsFrame.wire (frame : WsFrame) (isServer : Bool) : Bytes :=
  WsFrameParser.wireBytes frame.header.opcode frame.header.fin frame.payload isServer
    frame.header.maskingKey

/-- The bytes of all frames. -/
def wireOf (isServer : Bool) (frames : List WsFrame) : Bytes :=
  (frames.map fun frame => frame.wire isServer).flatten

/-! ## What the frames say -/

variable (pending : Option Message)

/-- What a data frame makes of the message that has begun before it. -/
def extend (frame : WsFrame) : Message :=
  match pending with
  | none => (frame.header.opcode, frame.payload)
  | some (opcode, payload) => (opcode, payload ++ frame.payload)

/-- The message that has begun, after one more frame. -/
def pendingAfter (frame : WsFrame) : Option Message :=
  if isControlFrame frame.header.opcode then pending
  else if frame.header.fin then none
  else some (extend pending frame)

/-- What a frame completes: itself, if it is a control frame, or the message. -/
def completed (frame : WsFrame) : Option Message :=
  if isControlFrame frame.header.opcode then some (frame.header.opcode, frame.payload)
  else if frame.header.fin then some (extend pending frame)
  else none

variable {pending}

/-- All messages and control frames in the order in which they are completed. -/
def reassemble : Option Message → List WsFrame → List Message
  | _, [] => []
  | pending, frame :: frames =>
    (completed pending frame).toList ++ reassemble (pendingAfter pending frame) frames

/-- A frame that a conforming peer may send next, within the limits of the reader. -/
structure Admissible (setting : WsReaderSetting) (capacity : Nat) (isServer : Bool)
    (pending : Option Message) (frame : WsFrame) : Prop where
  acceptable : frame.Acceptable
  frame_size : frame.payload.length ≤ setting.maxFrameSize
  buffer_size : (frame.wire isServer).length ≤ capacity
  sequence : isControlFrame frame.header.opcode = false →
    (pending = none ↔ frame.header.opcode ≠ .Continuation)
  message_size : isControlFrame frame.header.opcode = false →
    (extend pending frame).2.length ≤ setting.maxMessageSize
  text : isControlFrame frame.header.opcode = false → frame.header.fin = true →
    (extend pending frame).1 = .Text →
    WsFrameParser.isValidUtf8Scalar (extend pending frame).2 = true

def Conforming (setting : WsReaderSetting) (capacity : Nat) (isServer : Bool) :
    Option Message → List WsFrame → Prop
  | _, [] => True
  | pending, frame :: frames =>
    Admissible setting capacity isServer pending frame ∧
      Conforming setting capacity isServer (pendingAfter pending frame) frames

/-- No control frame stands between the fragments of a message. -/
def Uninterrupted : Option Message → List WsFrame → Prop
  | _, [] => True
  | pending, frame :: frames =>
    (isControlFrame frame.header.opcode = true → pending = none) ∧
      Uninterrupted (pendingAfter pending frame) frames

/-! ## Sessions -/

/-- The current run, the bytes of the peer that have not been read, and what has been delivered. -/
structure Session where
  state : WsMessageReadState
  unread : Bytes
  delivered : List Message := []

namespace WsMessageReadState

/-- The run after one that is complete: the state is reset, or a new one is made for the same ring
buffer. -/
inductive NextRun (final : WsMessageReadState) : WsMessageReadState → Prop
  | reset : NextRun final final.resetForNextMessage
  | new (message : Bytes) (opcode : WsOpcode) : NextRun final
    { ring := final.ring
      setting := final.setting
      message
      opcode
      isServer := final.isServer
      enableFastPath := final.enableFastPath
      hasControlCallback := final.hasControlCallback }

end WsMessageReadState

namespace Session

open WsMessageReadState

/-- One turn: the buffer is parsed, and then a message is delivered and the next run begins, or some
bytes are read. A session that has failed makes no turn. -/
inductive Step (simd : Bool) : Session → Session → Prop
  | deliver {session : Session} {final next : WsMessageReadState} : session.state.error = none →
    parseFromBuffer simd session.state = (true, final) → final.error = none → final.NextRun next →
    Step simd session { session with
      state := next
      delivered := session.delivered ++ [(final.opcode, final.message)] }
  | fail {session : Session} {final : WsMessageReadState} : session.state.error = none →
    parseFromBuffer simd session.state = (true, final) → final.error ≠ none →
    Step simd session { session with state := final }
  | full {session : Session} {waiting final : WsMessageReadState} : session.state.error = none →
    parseFromBuffer simd session.state = (false, waiting) →
    waiting.prepareRecvWindow = (false, final) → Step simd session { session with state := final }
  | read {session : Session} {waiting : WsMessageReadState} {bytes rest : Bytes} :
    session.state.error = none → parseFromBuffer simd session.state = (false, waiting) →
    waiting.prepareRecvWindow = (true, waiting) → bytes ≠ [] →
    bytes.length ≤ waiting.ring.writable → session.unread = bytes ++ rest →
    Step simd session { session with state := waiting.onBytesReceived bytes, unread := rest }

/-- In every run there is no error, what has been delivered is the beginning of what is expected,
and where a run cannot go on it is all of it. -/
def Delivers (simd : Bool) (turn : Session → Session → Prop) (start : Session)
    (expected : List Message) : Prop :=
  ∀ session, Relation.ReflTransGen turn start session →
    session.state.error = none ∧ session.delivered <+: expected ∧
      ((∀ session', ¬ Step simd session session') → session.delivered = expected)

end Session

end Galay.Ws
