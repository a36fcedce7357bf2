import Galay.Utils.RingBuffer
import Galay.Ws.PrefixScan

/-!
# The WebSocket message reader (`galay-ws/kernel/ws_reader.h`)

One `WsMessageReadState` reads one message. The string and the opcode that it writes to are its
fields `message` and `opcode`; the calls of the control frame callback are recorded. Byte counts are
natural numbers: the sums of the source stay far below `2 ^ 64`.
-/

namespace Galay.Ws

structure WsReaderSetting where
  maxFrameSize : Nat := 10 * 1024 * 1024
  maxMessageSize : Nat := 100 * 1024 * 1024
  deriving DecidableEq, Repr

structure WsError where
  code : WsErrorCode
  extraMsg : String := ""
  deriving DecidableEq, Repr

/-! ## The read state -/

structure WsMessageReadState where
  ring : RingBuffer
  setting : WsReaderSetting
  message : Bytes
  opcode : WsOpcode
  isServer : Bool
  enableFastPath : Bool := true
  hasControlCallback : Bool := false
  totalReceived : Nat := 0
  firstFrame : Bool := true
  fastPathFrames : Nat := 0
  controlCalls : List (WsOpcode × Bytes) := []
  error : Option WsError := none

namespace WsMessageReadState

variable (simd : Bool)

variable (state : WsMessageReadState)

def setParseError (error : WsError) : WsMessageReadState :=
  { state with error := some error }

def consume (state : WsMessageReadState) (length : Nat) : WsMessageReadState :=
  { state with ring := state.ring.consume length }

/-- The payload of a first frame takes the place of the message, that of a later one is appended.
The fast path writes a first payload behind the old message and moves it to the front afterwards. -/
def placePayload (opcode : WsOpcode) (payload : Bytes) :
    WsMessageReadState :=
  if state.firstFrame then { state with message := payload, opcode, firstFrame := false }
  else { state with message := state.message ++ payload }

/-- The status and the state after `tryFastPath`. -/
def tryFastPath (iovecs : IoVecs) :
    WsMessageFastPathStatus × WsMessageReadState :=
  match scanWsMessageFastPathPrefix iovecs state.isServer with
  | .error status => (status, state)
  | .ok header =>
    if state.firstFrame ∧ header.opcode = .Continuation then
      (.Return, (state.consume header.frameLength).setParseError
        ⟨.ProtocolError, "First frame cannot be continuation"⟩)
    else if ¬ state.firstFrame ∧ header.opcode ≠ .Continuation then
      (.Return, (state.consume header.frameLength).setParseError
        ⟨.ProtocolError, "Expected continuation frame"⟩)
    else
      let payloadSize := header.payloadLength
      if state.setting.maxFrameSize < payloadSize ∨ state.setting.maxMessageSize < payloadSize ∨
          state.setting.maxMessageSize - payloadSize < state.message.length then
        (.Return, state.setParseError ⟨.MessageTooLarge, "Message size exceeds limit"⟩)
      else
        match wsReadIovecBytes iovecs header.payloadOffset payloadSize with
        | none => (.Fallback, state)
        | some data =>
          let payload := header.unmask simd data
          let validated : Bool := header.opcode = .Text && header.fin
          if validated ∧ !WsFrameParser.isValidUtf8Bytes simd payload then
            (.Return, state.setParseError { code := .InvalidUtf8 })
          else
            let placed := (state.placePayload header.opcode payload).consume header.frameLength
            let state : WsMessageReadState :=
              { placed with fastPathFrames := placed.fastPathFrames + 1 }
            if state.setting.maxMessageSize < state.message.length then
              (.Return, state.setParseError ⟨.MessageTooLarge, "Message size exceeds limit"⟩)
            else if header.fin ∧ state.opcode = .Text ∧ !validated ∧
                !WsFrameParser.isValidUtf8Bytes simd state.message then
              (.Return, state.setParseError { code := .InvalidUtf8 })
            else if header.fin then (.Return, state)
            else (.Continue, state)

variable {state}

/-- What one pass of the loop of `parseFromBuffer` ends with. -/
inductive Pass
  | return (complete : Bool) (state : WsMessageReadState)
  | again (state : WsMessageReadState)

variable (state : WsMessageReadState)

/-- A frame whose bytes are missing: the size limit is checked against what has come so far. -/
def checkIncomplete : Pass :=
  if state.setting.maxMessageSize <
      state.message.length + state.totalReceived + state.ring.readable then
    .return true (state.setParseError ⟨.MessageTooLarge, "Message size exceeds limit"⟩)
  else .return false state

/-- A parsed frame on the general path, after it has been consumed. -/
def acceptFrame (frame : WsFrame) : Pass :=
  if state.setting.maxFrameSize < frame.header.payloadLength then
    .return true (state.setParseError ⟨.MessageTooLarge, "Frame payload too large"⟩)
  else if isControlFrame frame.header.opcode then
    if !frame.header.fin then
      .return true (state.setParseError { code := .ControlFrameFragmented })
    else
      let state : WsMessageReadState :=
        if state.hasControlCallback then
          { state with
            controlCalls := state.controlCalls ++ [(frame.header.opcode, frame.payload)] }
        else state
      .return true { state with message := frame.payload, opcode := frame.header.opcode }
  else if state.firstFrame ∧ frame.header.opcode = .Continuation then
    .return true (state.setParseError ⟨.ProtocolError, "First frame cannot be continuation"⟩)
  else if ¬ state.firstFrame ∧ frame.header.opcode ≠ .Continuation then
    .return true (state.setParseError ⟨.ProtocolError, "Expected continuation frame"⟩)
  else
    let state := state.placePayload frame.header.opcode frame.payload
    if state.setting.maxMessageSize < state.message.length then
      .return true (state.setParseError ⟨.MessageTooLarge, "Message size exceeds limit"⟩)
    else
      let validated : Bool := frame.header.opcode = .Text && frame.header.fin
      if frame.header.fin then
        if state.opcode = .Text ∧ !validated ∧
            !WsFrameParser.isValidUtf8Bytes simd state.message then
          .return true (state.setParseError { code := .InvalidUtf8 })
        else .return true state
      else if state.ring.readable = 0 then .return false state
      else .again state

def parseFrame (iovecs : IoVecs) : Pass :=
  match WsFrameParser.fromIOVec simd iovecs {} state.isServer with
  | .error .Incomplete => state.checkIncomplete
  | .error code => .return true (state.setParseError { code })
  | .ok (frame, consumed) => (state.consume consumed).acceptFrame simd frame

/-- One pass of the loop. -/
def parsePass : Pass :=
  let iovecs := state.ring.getReadIovecs
  if iovecs = [] then .return false state
  else if state.enableFastPath then
    match state.tryFastPath simd iovecs with
    | (.Return, state) => .return true state
    | (.Continue, state) => if state.ring.readable = 0 then .return false state else .again state
    | (.NeedMore, state) => state.checkIncomplete
    | (.Fallback, state) => state.parseFrame simd iovecs
  else state.parseFrame simd iovecs

variable {state}

variable {simd} {state state' : WsMessageReadState}

/-! ## Each pass consumes a frame -/

variable (state)

@[simp] theorem setParseError_ring (error : WsError) :
    (state.setParseError error).ring = state.ring := rfl

@[simp] theorem consume_ring (length : Nat) :
    (state.consume length).ring = state.ring.consume length := rfl

@[simp] theorem placePayload_ring (opcode : WsOpcode)
    (payload : Bytes) : (state.placePayload opcode payload).ring = state.ring := by
  unfold placePayload
  split <;> rfl

variable {state}

theorem tryFastPath_continue (h : state.tryFastPath simd iovecs = (.Continue, state')) :
    ∃ n, 2 ≤ n ∧ state'.ring = state.ring.consume n := by
  have hscan := scanned simd iovecs state.isServer
  unfold tryFastPath at h
  generalize scanWsMessageFastPathPrefix iovecs state.isServer = scan at hscan h
  cases hscan with
  | needMore => simp at h
  | fallback => simp at h
  | @frame header data hread hlen hctrl htwo hparse =>
  refine ⟨header.frameLength, htwo, ?_⟩
  simp only [hread] at h
  split_ifs at h <;> simp only [Prod.mk.injEq, reduceCtorEq, false_and, true_and] at h
  rw [← h]
  simp

theorem tryFastPath_fallback (h : state.tryFastPath simd iovecs = (status, state'))
    (hstatus : status = .Fallback ∨ status = .NeedMore) : state' = state := by
  have hscan := scanned simd iovecs state.isServer
  unfold tryFastPath at h
  generalize scanWsMessageFastPathPrefix iovecs state.isServer = scan at hscan h
  cases hscan with
  | needMore => exact (congrArg Prod.snd h).symm
  | fallback => exact (congrArg Prod.snd h).symm
  | @frame header data hread hlen hctrl htwo hparse =>
  simp only [hread] at h
  rcases hstatus with rfl | rfl
  · split_ifs at h <;> simp at h
  split_ifs at h <;> simp at h

theorem acceptFrame_again (h : state.acceptFrame simd frame = .again state') :
    state'.ring = state.ring := by
  unfold acceptFrame at h
  simp only at h
  split_ifs at h
  cases h
  exact placePayload_ring state _ _

theorem parseFrame_again (h : state.parseFrame simd iovecs = .again state') :
    ∃ n, 2 ≤ n ∧ state'.ring = state.ring.consume n := by
  unfold parseFrame checkIncomplete at h
  split at h
  · split at h <;> cases h
  · cases h
  next hparse =>
  exact ⟨_, WsFrameParser.two_le_of_fromIOVec hparse, acceptFrame_again h⟩

theorem parsePass_again (h : state.parsePass simd = .again state') :
    state'.ring.readable < state.ring.readable := by
  unfold parsePass checkIncomplete at h
  simp only at h
  split at h
  · cases h
  next hne =>
  have hpos : 0 < state.ring.readable := by
    rw [← RingBuffer.length_contents, List.length_pos_iff]
    exact fun hnil => hne (state.ring.getReadIovecs_eq_nil.2 hnil)
  suffices hconsume : ∃ n, 2 ≤ n ∧ state'.ring = state.ring.consume n by
    obtain ⟨n, htwo, hring⟩ := hconsume
    rw [hring, RingBuffer.readable_consume]
    omega
  split at h
  · split at h
    · cases h
    · next hfast =>
      split at h
      · cases h
      cases h
      exact tryFastPath_continue hfast
    · split at h <;> cases h
    next hfast =>
    rw [tryFastPath_fallback hfast (.inl rfl)] at h
    exact parseFrame_again h
  exact parseFrame_again h

/-- The loop of `parseFromBuffer`: whether the read is complete, and the state after it. -/
def parseFromBuffer (simd : Bool) (state : WsMessageReadState) : Bool × WsMessageReadState :=
  match h : state.parsePass simd with
  | .return complete state => (complete, state)
  | .again state => parseFromBuffer simd state
termination_by state.ring.readable
decreasing_by exact parsePass_again h

/-! ## Between the calls -/

variable (state)

/-- Whether there is room for a read; the connection ends where there is none. -/
def prepareRecvWindow : Bool × WsMessageReadState :=
  if state.ring.writable = 0 then
    (false, state.setParseError ⟨.ConnectionError, "Ring buffer has no space for writing"⟩)
  else (true, state)

/-- The bytes of a read are in the window and counted. -/
def onBytesReceived (bytes : Bytes) : WsMessageReadState :=
  { state with
    totalReceived := state.totalReceived + bytes.length
    ring := state.ring.receive bytes }

def resetForNextMessage : WsMessageReadState :=
  { state with
    totalReceived := 0
    firstFrame := true
    fastPathFrames := 0
    error := none
    message := [] }

end WsMessageReadState

end Galay.Ws
