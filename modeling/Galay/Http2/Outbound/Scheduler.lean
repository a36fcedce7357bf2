import Galay.Http2.Frame

/-!
# The outbound scheduler (`kernel/out_scheduler.cc`)

`pickSendableFrames` and `pickSendableBytes` are two copies of one deficit round robin. The loops
are written once, over the function that takes a piece of data from a stream and makes a frame of
it: `sendFrame` for the first, `sendBytes` for the second. The windows of the streams are
`int32_t`; of the connection window only the positive part is ever used, so the loops count it
down as a natural.
-/

namespace Galay.Http2

def kSizeMax : Nat := 2 ^ 64 - 1

structure H2OutboundBudget where
  connWindow : Int32 := 0
  maxFrameSize : UInt32 := kDefaultMaxFrameSize
  deriving DecidableEq, Repr

structure H2PendingData where
  chunks : List Bytes := []
  frontOffset : Nat := 0
  endStream : Bool := false
  deriving DecidableEq, Repr

structure H2StreamSendState where
  pending : H2PendingData := {}
  deficit : Nat := 0
  streamId : UInt32 := 0
  streamWindow : Int32 := 0
  weight : UInt8 := 16
  queued : Bool := false
  deriving DecidableEq, Repr

structure H2SchedulerConfig where
  baseQuantum : Nat := 16 * 1024
  deriving DecidableEq, Repr

/-- Result of a selection, of frames or of bytes. -/
structure H2Selection (F : Type) where
  frames : List F := []
  totalDataBytes : Nat := 0
  deriving DecidableEq, Repr

namespace H2Selection

variable {F : Type}

def append (a b : H2Selection F) : H2Selection F :=
  ⟨a.frames ++ b.frames, a.totalDataBytes + b.totalDataBytes⟩

end H2Selection

/-! ## Pending data -/

/-- `normalizePending` on the chunks and the offset. -/
def normalizeChunks : List Bytes → Nat → List Bytes × Nat
  | [], frontOffset => ([], frontOffset)
  | chunk :: chunks, frontOffset =>
    if frontOffset ≥ chunk.length then normalizeChunks chunks 0 else (chunk :: chunks, frontOffset)

namespace H2PendingData

variable (pending : H2PendingData)

/-- Drop the chunks that are sent. -/
def normalizePending : H2PendingData :=
  { pending with
    chunks := (normalizeChunks pending.chunks pending.frontOffset).1
    frontOffset := (normalizeChunks pending.chunks pending.frontOffset).2 }

def frontPendingSize : Nat :=
  match pending.chunks with
  | [] => 0
  | front :: _ => front.length - pending.frontOffset

/-- The next bytes of the front chunk. -/
def frontData (bytes : Nat) : Bytes :=
  ((pending.chunks.headD []).drop pending.frontOffset).take bytes

/-- Count the bytes as sent. -/
def advance (bytes : Nat) : H2PendingData :=
  { pending with frontOffset := pending.frontOffset + bytes }.normalizePending

def shouldSendEndStreamOnly : Bool :=
  pending.endStream && pending.chunks.isEmpty

end H2PendingData

/-- The stream without the chunks that are sent. -/
def H2StreamSendState.normalized (stream : H2StreamSendState) : H2StreamSendState :=
  { stream with pending := stream.pending.normalizePending }

/-! ## One piece of data -/

namespace Http2OutboundScheduler

open H2PendingData

variable (stream : H2StreamSendState)

/-- The two flags that are cleared when END_STREAM goes out. -/
def markEnd (sendEnd : Bool) : H2StreamSendState :=
  if sendEnd then
    { stream with pending := { stream.pending with endStream := false }, queued := false }
  else stream

/-- The frame is made after the sent chunks are dropped: END_STREAM when nothing is left. -/
def sendFrame (chunk : Nat) : Http2DataFrame × H2StreamSendState :=
  let payload := stream.pending.frontData chunk
  let stream := { stream with pending := stream.pending.advance chunk }
  let sendEnd := stream.pending.endStream && stream.pending.chunks.isEmpty
  (Http2FrameBuilder.data stream.streamId payload sendEnd, markEnd stream sendEnd)

/-- The bytes are made before: END_STREAM when this is the end of the only chunk. -/
def sendBytes (chunk : Nat) : Bytes × H2StreamSendState :=
  let payload := stream.pending.frontData chunk
  let sendEnd := stream.pending.endStream && stream.pending.chunks.length = 1 &&
    stream.pending.frontOffset + chunk = (stream.pending.chunks.headD []).length
  let frame := Http2FrameBuilder.dataBytes stream.streamId payload sendEnd
  let stream := { stream with pending := stream.pending.advance chunk }
  (frame, markEnd stream sendEnd)

variable {stream}

/-! ## The round robin -/

def quantumFor (stream : H2StreamSendState) (config : H2SchedulerConfig) : Nat :=
  let base := if config.baseQuantum = 0 then 1 else config.baseQuantum
  let weight := if stream.weight = 0 then 1 else stream.weight.toNat
  if base > kSizeMax / weight then kSizeMax else base * weight

section Loops

variable {F : Type} (send : H2StreamSendState → Nat → F × H2StreamSendState)
  (maxFrameSize : Nat) (config : H2SchedulerConfig)

/-- What the next frame of a stream may carry. -/
def chunkSize (connWindow : Nat) (stream : H2StreamSendState) : Nat :=
  min connWindow (min stream.streamWindow.toInt.toNat
    (min maxFrameSize (min stream.pending.frontPendingSize stream.deficit)))

/-- The frames of one stream in its turn. Each takes at least one byte of the connection window,
so as many rounds as the window has bytes are enough. -/
def sendChunks : (rounds connWindow : Nat) → H2StreamSendState →
    H2Selection F × Nat × H2StreamSendState
  | 0, connWindow, stream => ({}, connWindow, stream)
  | rounds + 1, connWindow, stream =>
    if stream.pending.chunks ≠ [] ∧ stream.streamWindow.toInt > 0 ∧ connWindow > 0 ∧
        stream.deficit > 0 then
      let chunk := chunkSize maxFrameSize connWindow stream
      if chunk = 0 then ({}, connWindow, stream)
      else
        let (frame, sent) := send stream chunk
        let stream := { sent with
          streamWindow := stream.streamWindow - Int32.ofNat chunk
          deficit := stream.deficit - chunk }
        let (out, connWindow, stream) := sendChunks rounds (connWindow - chunk) stream
        (H2Selection.append ⟨[frame], chunk⟩ out, connWindow, stream)
    else ({}, connWindow, stream)

/-- The turn of a stream that has data and window: its quantum is added to its deficit. -/
def credit (stream : H2StreamSendState) : H2StreamSendState :=
  let quantum := quantumFor stream config
  { stream with queued := true, deficit := min (kSizeMax - quantum) stream.deficit + quantum }

/-- One turn for each stream, until the connection window is used up. -/
def sendRound : (connWindow : Nat) → List H2StreamSendState →
    H2Selection F × Nat × List H2StreamSendState
  | connWindow, [] => ({}, connWindow, [])
  | connWindow, stream :: streams =>
    let stream := stream.normalized
    if stream.pending.chunks = [] ∨ stream.streamWindow.toInt ≤ (0 : Int) then
      let (out, connWindow, streams) := sendRound connWindow streams
      (out, connWindow, { stream with queued := false } :: streams)
    else
      let (out, connWindow, stream) :=
        sendChunks send maxFrameSize connWindow connWindow (credit config stream)
      if connWindow = 0 then (out, connWindow, stream :: streams)
      else
        let (rest, connWindow, streams) := sendRound connWindow streams
        (out.append rest, connWindow, stream :: streams)

/-- Rounds while there is connection window and the last round has sent something. A round that
is followed by another takes at least one byte of the window. -/
def sendRounds : (rounds connWindow : Nat) → List H2StreamSendState →
    H2Selection F × List H2StreamSendState
  | 0, _, streams => ({}, streams)
  | rounds + 1, connWindow, streams =>
    if connWindow > 0 then
      let (out, connWindow, streams) := sendRound send maxFrameSize config connWindow streams
      if out.frames.isEmpty then (out, streams)
      else
        let (rest, streams) := sendRounds rounds connWindow streams
        (out.append rest, streams)
    else ({}, streams)

end Loops

/-- A stream that has only END_STREAM left to send. -/
def takeEndStream (stream : H2StreamSendState) : H2StreamSendState :=
  let stream := stream.normalized
  if stream.pending.shouldSendEndStreamOnly then
    { stream with pending := { stream.pending with endStream := false } }
  else stream

/-- The frames of the first loop: END_STREAM alone where nothing else is left. -/
def endStreamOnly {F : Type} (endFrame : UInt32 → F) (streams : List H2StreamSendState) : List F :=
  streams.filterMap fun stream =>
    if stream.pending.normalizePending.shouldSendEndStreamOnly then some (endFrame stream.streamId)
    else none

/-- The selection over the DATA streams, and the streams after it. -/
def pickSendable {F : Type} (endFrame : UInt32 → F)
    (send : H2StreamSendState → Nat → F × H2StreamSendState) (budget : H2OutboundBudget)
    (streams : List H2StreamSendState) (config : H2SchedulerConfig) :
    H2Selection F × List H2StreamSendState :=
  if budget.maxFrameSize = 0 then ({}, streams)
  else
    let connWindow := budget.connWindow.toInt.toNat
    let (out, after) := sendRounds send budget.maxFrameSize.toNat config (connWindow + 1) connWindow
      (streams.map takeEndStream)
    (H2Selection.append ⟨endStreamOnly endFrame streams, 0⟩ out, after)

def pickSendableFrames (budget : H2OutboundBudget) (streams : List H2StreamSendState)
    (config : H2SchedulerConfig) : H2Selection Http2DataFrame × List H2StreamSendState :=
  pickSendable (fun streamId => Http2FrameBuilder.data streamId [] true) sendFrame budget streams
    config

def pickSendableBytes (budget : H2OutboundBudget) (streams : List H2StreamSendState)
    (config : H2SchedulerConfig) : H2Selection Bytes × List H2StreamSendState :=
  pickSendable (fun streamId => Http2FrameBuilder.dataBytes streamId [] true) sendBytes budget
    streams config

end Http2OutboundScheduler

end Galay.Http2
