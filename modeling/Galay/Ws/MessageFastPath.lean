import Galay.Ws.MessageReader

/-!
# The fast path against the general path

Both settings of `enable_fast_path` are compared on the same buffer and the same state. The paths
make their checks in different orders, and the fast path counts the bytes of an old message that it
is about to replace; where neither shows they agree.
-/

namespace Galay.Ws

open WsFrameParser

namespace WsMessageReadState

variable {simd : Bool} {state : WsMessageReadState} {k : Nat}

variable (state)

/-- The state with one setting of the fast path and a count of its frames. -/
def fast (k : Nat) : WsMessageReadState :=
  { state with enableFastPath := true, fastPathFrames := k }

def general (k : Nat) : WsMessageReadState :=
  { state with enableFastPath := false, fastPathFrames := k }

variable {state}

/-- The same completion, the same error code or the same message, and then as many bytes left. -/
structure Agrees (left right : Bool × WsMessageReadState) : Prop where
  complete : left.1 = right.1
  code : left.2.error.map WsError.code = right.2.error.map WsError.code
  read : right.2.error = none → left.2.message = right.2.message ∧
    left.2.opcode = right.2.opcode ∧ left.2.ring.readable = right.2.ring.readable

/-! ## Frames at the front of the buffer -/

/-- The complete data frame at the front, with its payload unmasked. -/
def frontFrame (simd : Bool) (state : WsMessageReadState) :
    Option (WsFastPathFramePrefix × Bytes) :=
  match scanWsMessageFastPathPrefix state.ring.getReadIovecs state.isServer with
  | .error _ => none
  | .ok header =>
    (wsReadIovecBytes state.ring.getReadIovecs header.payloadOffset header.payloadLength).map
      fun data => (header, header.unmask simd data)

/-- A first frame that continues, or a later one that does not. -/
def OutOfSequence (state : WsMessageReadState) (opcode : WsOpcode) : Prop :=
  if state.firstFrame then opcode = .Continuation else opcode ≠ .Continuation

instance (opcode : WsOpcode) : Decidable (state.OutOfSequence opcode) := by
  unfold OutOfSequence
  infer_instance

/-- A final text frame that is not UTF-8. -/
def BadText (header : WsFastPathFramePrefix) (payload : Bytes) : Prop :=
  header.opcode = .Text ∧ header.fin = true ∧ isValidUtf8Scalar payload = false

variable (state)

/-- The state after a data frame of `length` bytes has been taken. -/
def taken (opcode : WsOpcode) (payload : Bytes) (length : Nat) :
    WsMessageReadState :=
  (state.consume length).placePayload opcode payload

/-- The size of the message with the payload of the next frame. -/
def nextSize (payload : Bytes) : Nat :=
  if state.firstFrame then payload.length else state.message.length + payload.length

variable {state}

/-! ## The general path runs into the message size limit -/

/-- The next pass of the general path ends with the message size limit. -/
def TooLargeNow (simd : Bool) (state : WsMessageReadState) : Prop :=
  match fromIOVec simd state.ring.getReadIovecs {} state.isServer with
  | .error code => code = .Incomplete ∧ state.ring.getReadIovecs ≠ [] ∧
      state.setting.maxMessageSize <
        state.message.length + state.totalReceived + state.ring.readable
  | .ok (frame, _) => state.setting.maxFrameSize < frame.header.payloadLength ∨
      (isControlFrame frame.header.opcode = false ∧ ¬ state.OutOfSequence frame.header.opcode ∧
        state.setting.maxMessageSize < state.nextSize frame.payload)

/-- The state after the next frame, if that is a fragment with others to follow. -/
def nextFragment (simd : Bool) (state : WsMessageReadState) : Option WsMessageReadState :=
  match fromIOVec simd state.ring.getReadIovecs {} state.isServer with
  | .error _ => none
  | .ok (frame, n) =>
    if state.setting.maxFrameSize < frame.header.payloadLength ∨
        isControlFrame frame.header.opcode = true ∨ state.OutOfSequence frame.header.opcode ∨
        state.setting.maxMessageSize < state.nextSize frame.payload ∨ frame.header.fin = true then
      none
    else some (state.taken frame.header.opcode frame.payload n)

/-- The buffered frames make the message too large. -/
inductive EndsTooLarge (simd : Bool) : WsMessageReadState → Prop
  | now {state : WsMessageReadState} : TooLargeNow simd state → EndsTooLarge simd state
  | later {state state' : WsMessageReadState} : nextFragment simd state = some state' →
    EndsTooLarge simd state' → EndsTooLarge simd state

/-! ## The frames on which the paths differ -/

/-- Both paths reject the frame, with different codes: the general path looks at a final text
first, then at the frame size and then at the sequence, the fast path at the sequence, then at the
sizes and then at the text. -/
inductive Mismatch (state : WsMessageReadState) (header : WsFastPathFramePrefix)
    (payload : Bytes) : Prop
  | text : ¬ state.OutOfSequence header.opcode → BadText header payload →
    (state.setting.maxFrameSize < payload.length ∨
      state.setting.maxMessageSize < state.message.length + payload.length) →
    Mismatch state header payload
  | sequence : state.OutOfSequence header.opcode →
    (BadText header payload ∨ state.setting.maxFrameSize < payload.length) →
    Mismatch state header payload

/-- A first frame that fits by itself, but not together with the old message. -/
structure Stale (state : WsMessageReadState) (header : WsFastPathFramePrefix)
    (payload : Bytes) : Prop where
  first : state.firstFrame = true
  sequence : ¬ state.OutOfSequence header.opcode
  text : ¬ BadText header payload
  frame : payload.length ≤ state.setting.maxFrameSize
  message : payload.length ≤ state.setting.maxMessageSize
  old : state.setting.maxMessageSize < state.message.length + payload.length

/-- A fragment that both paths take. -/
structure Fragment (state : WsMessageReadState) (header : WsFastPathFramePrefix)
    (payload : Bytes) : Prop where
  sequence : ¬ state.OutOfSequence header.opcode
  fin : header.fin = false
  frame : payload.length ≤ state.setting.maxFrameSize
  message : state.message.length + payload.length ≤ state.setting.maxMessageSize

/-- After fragments that both paths take comes a frame on which they differ. A stale message alone
does not count if the general path then runs into the size limit as well. -/
inductive Diverges (simd : Bool) : WsMessageReadState → Prop
  | mismatch {state : WsMessageReadState} {header : WsFastPathFramePrefix} {payload : Bytes} :
    frontFrame simd state = some (header, payload) → Mismatch state header payload →
    Diverges simd state
  | stale {state : WsMessageReadState} {header : WsFastPathFramePrefix} {payload : Bytes} :
    frontFrame simd state = some (header, payload) → Stale state header payload →
    ¬ (header.fin = false ∧
      EndsTooLarge simd (state.taken header.opcode payload header.frameLength)) →
    Diverges simd state
  | later {state : WsMessageReadState} {header : WsFastPathFramePrefix} {payload : Bytes} :
    frontFrame simd state = some (header, payload) → Fragment state header payload →
    Diverges simd (state.taken header.opcode payload header.frameLength) → Diverges simd state

/-! ## One pass of the general path -/

theorem parseFromBuffer_eq (simd : Bool) (state : WsMessageReadState) :
    parseFromBuffer simd state =
      match state.parsePass simd with
      | .return complete state => (complete, state)
      | .again state => parseFromBuffer simd state := by
  rw [parseFromBuffer]
  split
  · next h => rw [h]
  next h => rw [h]

theorem length_placePayload (state : WsMessageReadState) (opcode : WsOpcode) (payload : Bytes) :
    (state.placePayload opcode payload).message.length = state.nextSize payload := by
  unfold placePayload nextSize
  split
  · rfl
  exact List.length_append

/-- What a pass of the general path ends with. -/
inductive GeneralPass (simd : Bool) (state : WsMessageReadState) (k : Nat) : Pass → Prop
  | tooLarge {final : WsMessageReadState} {error : WsError} : TooLargeNow simd state →
    final.error = some error → error.code = .MessageTooLarge →
    GeneralPass simd state k (.return true final)
  | other {complete : Bool} {final : WsMessageReadState} : ¬ TooLargeNow simd state →
    nextFragment simd state = none →
    (∀ error, final.error = some error → error.code ≠ .MessageTooLarge) →
    GeneralPass simd state k (.return complete final)
  | wait {state' : WsMessageReadState} : ¬ TooLargeNow simd state →
    nextFragment simd state = some state' → state'.ring.readable = 0 → state'.error = none →
    GeneralPass simd state k (.return false (state'.general k))
  | again {state' : WsMessageReadState} : ¬ TooLargeNow simd state →
    nextFragment simd state = some state' → state'.ring.readable ≠ 0 → state'.error = none →
    GeneralPass simd state k (.again (state'.general k))

theorem outOfSequence_first {opcode : WsOpcode} :
    (state.firstFrame = true ∧ opcode = .Continuation) ∨
      (¬ state.firstFrame = true ∧ opcode ≠ .Continuation) ↔ state.OutOfSequence opcode := by
  unfold OutOfSequence
  split
  · next h => simp [h]
  next h => simp [h]

section

variable (opcode : WsOpcode) (payload : Bytes)
include opcode payload

theorem error_placePayload :
    (state.placePayload opcode payload).error = state.error := by
  unfold placePayload
  split <;> rfl

theorem placePayload_general (n : Nat) :
    ((state.general k).consume n).placePayload opcode payload =
      (state.taken opcode payload n).general k := by
  cases hfirst : state.firstFrame <;> simp [taken, placePayload, general, consume, hfirst]

theorem error_taken (n : Nat) :
    (state.taken opcode payload n).error = state.error :=
  @error_placePayload (state.consume n) opcode payload

theorem length_taken (n : Nat) :
    (state.taken opcode payload n).message.length = state.nextSize payload :=
  length_placePayload (state.consume n) opcode payload

theorem setting_taken (n : Nat) :
    (state.taken opcode payload n).setting = state.setting := by
  unfold taken placePayload
  split <;> rfl

end

theorem generalPass_acceptFrame (herr : state.error = none)
    (hparse : fromIOVec simd state.ring.getReadIovecs {} state.isServer = .ok (frame, n)) :
    GeneralPass simd state k (((state.general k).consume n).acceptFrame simd frame) := by
  have hnow : TooLargeNow simd state ↔ state.setting.maxFrameSize < frame.header.payloadLength ∨
      (isControlFrame frame.header.opcode = false ∧ ¬ state.OutOfSequence frame.header.opcode ∧
        state.setting.maxMessageSize < state.nextSize frame.payload) := by
    rw [TooLargeNow, hparse]
  have hnext : nextFragment simd state =
      if state.setting.maxFrameSize < frame.header.payloadLength ∨
          isControlFrame frame.header.opcode = true ∨ state.OutOfSequence frame.header.opcode ∨
          state.setting.maxMessageSize < state.nextSize frame.payload ∨
          frame.header.fin = true then none
      else some (state.taken frame.header.opcode frame.payload n) := by
    rw [nextFragment, hparse]
  unfold acceptFrame
  simp only [placePayload_general]
  split
  · next hlarge => exact .tooLarge (hnow.2 (.inl hlarge)) rfl rfl
  next hlarge =>
  have hlarge' : ¬ state.setting.maxFrameSize < frame.header.payloadLength := hlarge
  split
  · next hctrl =>
    have hsmall : ¬ TooLargeNow simd state := by
      rw [hnow]
      rintro (h | ⟨h, -⟩)
      · exact hlarge' h
      rw [hctrl] at h
      cases h
    have hnone : nextFragment simd state = none := by rw [hnext, if_pos (.inr (.inl hctrl))]
    split
    · exact .other hsmall hnone (by rintro error ⟨⟩ ⟨⟩)
    refine .other hsmall hnone fun error h => ?_
    have hsame : state.error = some error := by
      split at h <;> exact h
    rw [herr] at hsame
    cases hsame
  next hctrl =>
  have hdata : isControlFrame frame.header.opcode = false := by simpa using hctrl
  -- The two sequence errors of the source are one case here.
  by_cases hseq : state.OutOfSequence frame.header.opcode
  · have hsmall : ¬ TooLargeNow simd state := by
      rw [hnow]
      rintro (h | ⟨-, h, -⟩)
      · exact hlarge' h
      exact h hseq
    have hnone : nextFragment simd state = none := by rw [hnext, if_pos (.inr (.inr (.inl hseq)))]
    split
    · exact .other hsmall hnone (by rintro error ⟨⟩ ⟨⟩)
    next hfirst =>
    rcases outOfSequence_first.2 hseq with h | h
    · exact absurd h hfirst
    split
    · exact .other hsmall hnone (by rintro error ⟨⟩ ⟨⟩)
    next hrest => exact absurd h hrest
  have hfirst : ¬ (state.firstFrame = true ∧ frame.header.opcode = .Continuation) :=
    fun h => hseq (outOfSequence_first.1 (.inl h))
  have hrest : ¬ (¬ state.firstFrame = true ∧ frame.header.opcode ≠ .Continuation) :=
    fun h => hseq (outOfSequence_first.1 (.inr h))
  split
  · next h => exact absurd h hfirst
  split
  · next h => exact absurd h hrest
  have hsize : ((state.taken frame.header.opcode frame.payload n).general k).message.length =
      state.nextSize frame.payload := length_taken _ _ n
  have hsetting : ((state.taken frame.header.opcode frame.payload n).general k).setting =
      state.setting := setting_taken _ _ n
  have hnoError : (state.taken frame.header.opcode frame.payload n).error = none := by
    rw [error_taken, herr]
  simp only [hsize, hsetting]
  split
  · next hmsg => exact .tooLarge (hnow.2 (.inr ⟨hdata, hseq, hmsg⟩)) rfl rfl
  next hmsg =>
  have hsmall : ¬ TooLargeNow simd state := by
    rw [hnow]
    rintro (h | ⟨-, -, h⟩)
    · exact hlarge' h
    exact hmsg h
  split
  · next hfin =>
    have hnone : nextFragment simd state = none := by
      rw [hnext, if_pos (.inr (.inr (.inr (.inr hfin))))]
    split
    · exact .other hsmall hnone (by rintro error ⟨⟩ ⟨⟩)
    refine .other hsmall hnone fun error h => ?_
    have hsame : (state.taken frame.header.opcode frame.payload n).error = some error := h
    rw [hnoError] at hsame
    cases hsame
  next hfin =>
  have hsome : nextFragment simd state =
      some (state.taken frame.header.opcode frame.payload n) := by
    rw [hnext, if_neg]
    rintro (h | h | h | h | h)
    · exact hlarge' h
    · exact hctrl h
    · exact hseq h
    · exact hmsg h
    exact hfin h
  split
  · next hempty => exact .wait hsmall hsome hempty hnoError
  next hmore => exact .again hsmall hsome hmore hnoError

theorem generalPass (herr : state.error = none) :
    GeneralPass simd state k ((state.general k).parsePass simd) := by
  have hquiet : ∀ {complete : Bool} {error : WsErrorCode},
      fromIOVec simd state.ring.getReadIovecs {} state.isServer = .error error →
      ¬ TooLargeNow simd state →
      GeneralPass simd state k (.return complete (state.general k)) := by
    intro complete error hparse hsmall
    refine .other hsmall (by rw [nextFragment, hparse]) fun error h => ?_
    have hsame : state.error = some error := h
    rw [herr] at hsame
    cases hsame
  unfold parsePass
  simp only
  split
  · next hnil =>
    have hnil' : state.ring.getReadIovecs = [] := hnil
    have hparse : fromIOVec simd state.ring.getReadIovecs {} state.isServer =
        .error .Incomplete := by
      rw [hnil']
      rfl
    refine hquiet hparse ?_
    rw [TooLargeNow, hparse]
    exact fun h => h.2.1 hnil'
  next hne =>
  have hne' : state.ring.getReadIovecs ≠ [] := hne
  split
  · next h => cases h
  unfold parseFrame
  split
  · next hparse =>
    have hparse' : fromIOVec simd state.ring.getReadIovecs {} state.isServer =
        .error .Incomplete := hparse
    have hnow : TooLargeNow simd state ↔ state.setting.maxMessageSize <
        state.message.length + state.totalReceived + state.ring.readable := by
      rw [TooLargeNow, hparse']
      exact ⟨fun h => h.2.2, fun h => ⟨rfl, hne', h⟩⟩
    unfold checkIncomplete
    split
    · next hlimit => exact .tooLarge (hnow.2 hlimit) rfl rfl
    next hlimit => exact hquiet hparse' (fun h => hlimit (hnow.1 h))
  · next code hcode hparse =>
    have hparse' : fromIOVec simd state.ring.getReadIovecs {} state.isServer =
        .error code := hparse
    refine .other ?_ (by rw [nextFragment, hparse']) ?_
    · rw [TooLargeNow, hparse']
      exact fun h => hcode h.1
    rintro error ⟨⟩
    exact fromIOVec_ne_messageTooLarge hparse'
  next frame n hparse => exact generalPass_acceptFrame herr hparse

/-! ## Runs of the general path -/

theorem getReadIovecs_of_readable (h : state.ring.readable = 0) : state.ring.getReadIovecs = [] := by
  rw [RingBuffer.getReadIovecs_eq_nil, ← List.length_eq_zero_iff, RingBuffer.length_contents, h]

theorem not_endsTooLarge_of_empty (h : state.ring.readable = 0) : ¬ EndsTooLarge simd state := by
  have hnil := getReadIovecs_of_readable h
  have hparse : fromIOVec simd state.ring.getReadIovecs {} state.isServer = .error .Incomplete := by
    rw [hnil]
    rfl
  rintro (hnow | ⟨hnext, -⟩)
  · rw [TooLargeNow, hparse] at hnow
    exact hnow.2.1 hnil
  rw [nextFragment, hparse] at hnext
  cases hnext

theorem endsTooLarge_iff (herr : state.error = none) :
    EndsTooLarge simd state ↔ ∃ final error,
      parseFromBuffer simd (state.general k) = (true, final) ∧ final.error = some error ∧
        error.code = .MessageTooLarge := by
  induction hm : state.ring.readable using Nat.strongRecOn generalizing state with
  | ind m ih =>
  have hpass : GeneralPass simd state k _ := generalPass herr
  rw [parseFromBuffer_eq]
  generalize hP : (state.general k).parsePass simd = P at hpass
  cases hpass with
  | tooLarge hnow hfinal hcode =>
    exact ⟨fun _ => ⟨_, _, rfl, hfinal, hcode⟩, fun _ => .now hnow⟩
  | other hnow hnext hcode =>
    refine ⟨?_, ?_⟩
    · rintro (h | ⟨h, -⟩)
      · exact absurd h hnow
      rw [hnext] at h
      cases h
    rintro ⟨final, error, heq, hfinal, htoo⟩
    cases heq
    exact absurd htoo (hcode error hfinal)
  | @wait state' hnow hnext hempty hnoError =>
    refine ⟨?_, ?_⟩
    · rintro (h | ⟨h, hends⟩)
      · exact absurd h hnow
      rw [hnext] at h
      cases h
      exact absurd hends (not_endsTooLarge_of_empty hempty)
    rintro ⟨final, error, heq, -, -⟩
    cases heq
  | @again state' hnow hnext hmore hnoError =>
  have hlt : (state'.general k).ring.readable < (state.general k).ring.readable :=
    parsePass_again hP
  refine Iff.trans ⟨?_, fun h => .later hnext h⟩ (ih _ (hm ▸ hlt) hnoError rfl)
  rintro (h | ⟨h, hends⟩)
  · exact absurd h hnow
  rw [hnext] at h
  cases h
  exact hends

/-! ## Both paths at a frame -/

variable {header : WsFastPathFramePrefix} {payload : Bytes}

theorem length_unmask (header : WsFastPathFramePrefix) (data : Bytes) :
    (header.unmask simd data).length = data.length := by
  unfold WsFastPathFramePrefix.unmask
  split
  · rw [applyMaskBytesImpl_eq, length_maskTail]
  rfl

/-- What the scanner and the parser say of the frame at the front. -/
structure FrontSpec (simd : Bool) (state : WsMessageReadState) (header : WsFastPathFramePrefix)
    (payload : Bytes) : Prop where
  scan : scanWsMessageFastPathPrefix state.ring.getReadIovecs state.isServer = .ok header
  read : ∃ data, wsReadIovecBytes state.ring.getReadIovecs header.payloadOffset
    header.payloadLength = some data ∧ payload = header.unmask simd data
  length : header.payloadLength = payload.length
  data : isControlFrame header.opcode = false
  parse : fromIOVec simd state.ring.getReadIovecs {} state.isServer =
    match checkPayload simd header.opcode header.fin payload with
    | .error error => .error error
    | .ok () => .ok (header.frame payload, header.frameLength)
  iovecs : state.ring.getReadIovecs ≠ []

theorem frontSpec (h : frontFrame simd state = some (header, payload)) :
    FrontSpec simd state header payload := by
  have hscan := scanned simd state.ring.getReadIovecs state.isServer
  unfold frontFrame at h
  generalize hscanned : scanWsMessageFastPathPrefix state.ring.getReadIovecs state.isServer = scan
    at hscan h
  cases hscan with
  | needMore => cases h
  | fallback => cases h
  | @frame header' data hread hlen hctrl htwo hparse =>
  simp only [hread, Option.map_some, Option.some.injEq, Prod.mk.injEq] at h
  obtain ⟨rfl, rfl⟩ := h
  refine ⟨hscanned, ⟨data, hread, rfl⟩, ?_, hctrl, hparse, ?_⟩
  · rw [length_unmask, hlen]
  intro hnil
  rw [hnil] at hscanned
  cases hscanned

theorem frontFrame_none (h : frontFrame simd state = none) :
    ∃ status, scanWsMessageFastPathPrefix state.ring.getReadIovecs state.isServer =
      .error status := by
  have hscan := scanned simd state.ring.getReadIovecs state.isServer
  unfold frontFrame at h
  generalize scanWsMessageFastPathPrefix state.ring.getReadIovecs state.isServer = scan
    at hscan h
  cases hscan with
  | needMore => exact ⟨_, rfl⟩
  | fallback => exact ⟨_, rfl⟩
  | frame hread => simp [hread] at h

/-- The final text check of a message that is complete. -/
def finish (simd : Bool) (header : WsFastPathFramePrefix) (state : WsMessageReadState) :
    WsMessageReadState :=
  if state.opcode = .Text ∧ !(header.opcode = .Text && header.fin) ∧
      !isValidUtf8Bytes simd state.message then
    state.setParseError { code := .InvalidUtf8 }
  else state

/-- What a pass ends with after the frame has been taken. -/
def takenPass (simd : Bool) (header : WsFastPathFramePrefix) (state : WsMessageReadState) : Pass :=
  if header.fin then .return true (finish simd header state)
  else if state.ring.readable = 0 then .return false state
  else .again state

/-- A pass that ends with an error of this code. -/
def Fails (pass : Pass) (code : WsErrorCode) : Prop :=
  ∃ final error, pass = .return true final ∧ final.error = some error ∧ error.code = code

theorem fails_setParseError (state : WsMessageReadState) (error : WsError) :
    Fails (.return true (state.setParseError error)) error.code :=
  ⟨_, _, rfl, rfl, rfl⟩

theorem nextSize_le (payload : Bytes) :
    state.nextSize payload ≤ state.message.length + payload.length := by
  unfold nextSize
  split <;> omega

theorem placePayload_fast (opcode : WsOpcode) (payload : Bytes) (n : Nat) :
    { ((state.fast k).placePayload opcode payload).consume n with
      fastPathFrames := (((state.fast k).placePayload opcode payload).consume n).fastPathFrames + 1 } =
      (state.taken opcode payload n).fast (k + 1) := by
  cases hfirst : state.firstFrame <;> simp [taken, placePayload, fast, consume, hfirst]

theorem not_outOfSequence {opcode : WsOpcode} (h : ¬ state.OutOfSequence opcode) :
    ¬ (state.firstFrame = true ∧ opcode = .Continuation) ∧
      ¬ (¬ state.firstFrame = true ∧ opcode ≠ .Continuation) :=
  ⟨fun hf => h (outOfSequence_first.1 (.inl hf)), fun hf => h (outOfSequence_first.1 (.inr hf))⟩

theorem badText_iff (header : WsFastPathFramePrefix) (payload : Bytes) :
    ((header.opcode = .Text && header.fin) = true ∧
      (!isValidUtf8Bytes simd payload) = true) ↔ BadText header payload := by
  rw [isValidUtf8Bytes_eq, BadText, Bool.and_eq_true, decide_eq_true_eq, Bool.not_eq_true',
    and_assoc]

section
variable (H : FrontSpec simd state header payload)
include H

theorem FrontSpec.fast_return
    (h : (state.fast k).tryFastPath simd state.ring.getReadIovecs = (.Return, final)) :
    (state.fast k).parsePass simd = .return true final := by
  have hne : (state.fast k).ring.getReadIovecs ≠ [] := H.iovecs
  have htry : (state.fast k).tryFastPath simd (state.fast k).ring.getReadIovecs =
      (.Return, final) := h
  unfold parsePass
  simp only [if_neg hne, htry]
  rfl

theorem FrontSpec.fast_continue
    (h : (state.fast k).tryFastPath simd state.ring.getReadIovecs = (.Continue, final)) :
    (state.fast k).parsePass simd =
      if final.ring.readable = 0 then .return false final else .again final := by
  have hne : (state.fast k).ring.getReadIovecs ≠ [] := H.iovecs
  have htry : (state.fast k).tryFastPath simd (state.fast k).ring.getReadIovecs =
      (.Continue, final) := h
  unfold parsePass
  simp only [if_neg hne, htry]
  rfl

theorem FrontSpec.fast_outOfSequence (hseq : state.OutOfSequence header.opcode) :
    Fails ((state.fast k).parsePass simd) .ProtocolError := by
  have hscan : scanWsMessageFastPathPrefix state.ring.getReadIovecs (state.fast k).isServer =
      .ok header := H.scan
  rcases outOfSequence_first.2 hseq with hfirst | hrest
  · have hfirst' : (state.fast k).firstFrame = true ∧ header.opcode = .Continuation := hfirst
    have htry : (state.fast k).tryFastPath simd state.ring.getReadIovecs =
        (.Return, ((state.fast k).consume header.frameLength).setParseError
          ⟨.ProtocolError, "First frame cannot be continuation"⟩) := by
      unfold tryFastPath
      simp only [hscan, if_pos hfirst']
    rw [H.fast_return htry]
    exact fails_setParseError _ _
  have hrest' : ¬ (state.fast k).firstFrame = true ∧ header.opcode ≠ .Continuation := hrest
  have hfirst' : ¬ ((state.fast k).firstFrame = true ∧ header.opcode = .Continuation) :=
    fun h => hrest'.1 h.1
  have htry : (state.fast k).tryFastPath simd state.ring.getReadIovecs =
      (.Return, ((state.fast k).consume header.frameLength).setParseError
        ⟨.ProtocolError, "Expected continuation frame"⟩) := by
    unfold tryFastPath
    simp only [hscan, if_neg hfirst', if_pos hrest']
  rw [H.fast_return htry]
  exact fails_setParseError _ _

section

variable (hseq : ¬ state.OutOfSequence header.opcode)
include hseq

/-- The part of `tryFastPath` after the sequence checks. -/
theorem FrontSpec.tryFastPath_eq :
    (state.fast k).tryFastPath simd state.ring.getReadIovecs =
      if state.setting.maxFrameSize < payload.length ∨
          state.setting.maxMessageSize < state.message.length + payload.length then
        (.Return, (state.fast k).setParseError ⟨.MessageTooLarge, "Message size exceeds limit"⟩)
      else if (header.opcode = .Text && header.fin) = true ∧
          (!isValidUtf8Bytes simd payload) = true then
        (.Return, (state.fast k).setParseError { code := .InvalidUtf8 })
      else
        let taken := (state.taken header.opcode payload header.frameLength).fast (k + 1)
        if header.fin then (.Return, finish simd header taken) else (.Continue, taken) := by
  have hscan : scanWsMessageFastPathPrefix state.ring.getReadIovecs (state.fast k).isServer =
      .ok header := H.scan
  obtain ⟨data, hread, hpay⟩ := H.read
  obtain ⟨hfirst, hrest⟩ := not_outOfSequence hseq
  rw [H.length] at hread
  unfold tryFastPath
  simp only [hscan, hread, ← hpay, placePayload_fast, H.length]
  split
  · next h => exact absurd h hfirst
  split
  · next h => exact absurd h hrest
  -- The three size checks together.
  by_cases hlarge : state.setting.maxFrameSize < payload.length ∨
      state.setting.maxMessageSize < state.message.length + payload.length
  · rw [if_pos hlarge]
    split
    · rfl
    next hsmall =>
    have hsmall' : ¬ (state.setting.maxFrameSize < payload.length ∨
        state.setting.maxMessageSize < payload.length ∨
        state.setting.maxMessageSize - payload.length < state.message.length) := hsmall
    omega
  rw [if_neg hlarge]
  split
  · next hlimit =>
    have hlimit' : state.setting.maxFrameSize < payload.length ∨
        state.setting.maxMessageSize < payload.length ∨
        state.setting.maxMessageSize - payload.length < state.message.length := hlimit
    omega
  split
  · rfl
  -- The state of the source at its last checks is the one that is returned.
  have hplaced := @placePayload_fast state k header.opcode payload header.frameLength
  have hmsg : (((state.fast k).placePayload header.opcode payload).consume
      header.frameLength).message =
      ((state.taken header.opcode payload header.frameLength).fast (k + 1)).message := by
    rw [← hplaced]
  have hopcode : (((state.fast k).placePayload header.opcode payload).consume
      header.frameLength).opcode =
      ((state.taken header.opcode payload header.frameLength).fast (k + 1)).opcode := by
    rw [← hplaced]
  have hsetting : (((state.fast k).placePayload header.opcode payload).consume
      header.frameLength).setting = state.setting := by
    have h : ((state.taken header.opcode payload header.frameLength).fast (k + 1)).setting =
        state.setting := setting_taken _ _ _
    rw [← hplaced] at h
    exact h
  have hsize : ¬ state.setting.maxMessageSize <
      ((state.taken header.opcode payload header.frameLength).fast (k + 1)).message.length := by
    have hle : state.nextSize payload ≤ _ := nextSize_le payload
    rw [show ((state.taken header.opcode payload header.frameLength).fast (k + 1)).message.length =
      state.nextSize payload from length_taken _ _ _]
    omega
  rw [hmsg, hopcode, hsetting, if_neg hsize]
  unfold finish
  cases header.fin with
  | true => simp only [true_and, if_true]; split <;> rfl
  | false => simp

theorem FrontSpec.fast_tooLarge
    (hlarge : state.setting.maxFrameSize < payload.length ∨ state.setting.maxMessageSize < state.message.length + payload.length)
    :
    Fails ((state.fast k).parsePass simd) .MessageTooLarge := by
  have htry := H.tryFastPath_eq (k := k) hseq
  rw [if_pos hlarge] at htry
  rw [H.fast_return htry]
  exact fails_setParseError _ _

section

variable (hsmall : ¬ (state.setting.maxFrameSize < payload.length ∨ state.setting.maxMessageSize < state.message.length + payload.length))

include hsmall

theorem FrontSpec.fast_badText
    (htext : BadText header payload) : Fails ((state.fast k).parsePass simd) .InvalidUtf8 := by
  have htry := H.tryFastPath_eq (k := k) hseq
  rw [if_neg hsmall, if_pos ((badText_iff header payload).2 htext)] at htry
  rw [H.fast_return htry]
  exact fails_setParseError _ _

theorem FrontSpec.fast_taken (htext : ¬ BadText header payload) :
    (state.fast k).parsePass simd =
      takenPass simd header ((state.taken header.opcode payload header.frameLength).fast (k + 1)) := by
  have htry := H.tryFastPath_eq (k := k) hseq
  rw [if_neg hsmall, if_neg (fun h => htext ((badText_iff header payload).1 h))] at htry
  unfold takenPass
  cases hfin : header.fin with
  | true =>
    simp only [hfin, if_true] at htry
    rw [H.fast_return htry, if_pos rfl]
  | false =>
  simp only [hfin, Bool.false_eq_true, if_false] at htry
  rw [H.fast_continue htry]
  rfl

end

end

theorem FrontSpec.checkPayload_eq : checkPayload simd header.opcode header.fin payload =
    if (header.opcode = .Text && header.fin) = true ∧ (!isValidUtf8Bytes simd payload) = true then
      .error .InvalidUtf8
    else .ok () := by
  have hclose : header.opcode ≠ .Close := by
    intro h
    have hdata := H.data
    rw [h] at hdata
    cases hdata
  unfold checkPayload
  simp only [if_neg hclose, Bool.and_eq_true, decide_eq_true_eq]
  split
  · next h => simp only [h, and_self, true_and]
  next h => simp only [h, false_and, if_false]

theorem FrontSpec.general_badText (htext : BadText header payload) :
    Fails ((state.general k).parsePass simd) .InvalidUtf8 := by
  have hne : (state.general k).ring.getReadIovecs ≠ [] := H.iovecs
  have hparse : fromIOVec simd (state.general k).ring.getReadIovecs {} (state.general k).isServer =
      .error .InvalidUtf8 := by
    have hfront := H.parse
    rw [H.checkPayload_eq, if_pos ((badText_iff header payload).2 htext)] at hfront
    exact hfront
  have hpass : (state.general k).parsePass simd =
      .return true ((state.general k).setParseError { code := .InvalidUtf8 }) := by
    unfold parsePass parseFrame
    simp only [if_neg hne, hparse]
    rfl
  rw [hpass]
  exact fails_setParseError _ _

theorem FrontSpec.general_parse (htext : ¬ BadText header payload) :
    fromIOVec simd state.ring.getReadIovecs {} state.isServer =
      .ok (header.frame payload, header.frameLength) := by
  have hfront := H.parse
  rw [H.checkPayload_eq, if_neg (fun h => htext ((badText_iff header payload).1 h))] at hfront
  exact hfront

theorem FrontSpec.general_accept (htext : ¬ BadText header payload) :
    (state.general k).parsePass simd =
      ((state.general k).consume header.frameLength).acceptFrame simd (header.frame payload) := by
  have hne : (state.general k).ring.getReadIovecs ≠ [] := H.iovecs
  have hparse : fromIOVec simd (state.general k).ring.getReadIovecs {} (state.general k).isServer =
      .ok (header.frame payload, header.frameLength) := H.general_parse htext
  unfold parsePass parseFrame
  simp only [if_neg hne, hparse]
  rfl

/-- The checks of the general path on a data frame, in their order. -/
theorem FrontSpec.acceptFrame_eq (n : Nat) :
    ((state.general k).consume n).acceptFrame simd (header.frame payload) =
      if state.setting.maxFrameSize < payload.length then
        .return true (((state.general k).consume n).setParseError
          ⟨.MessageTooLarge, "Frame payload too large"⟩)
      else if state.firstFrame = true ∧ header.opcode = .Continuation then
        .return true (((state.general k).consume n).setParseError
          ⟨.ProtocolError, "First frame cannot be continuation"⟩)
      else if ¬ state.firstFrame = true ∧ header.opcode ≠ .Continuation then
        .return true (((state.general k).consume n).setParseError
          ⟨.ProtocolError, "Expected continuation frame"⟩)
      else
        let taken := (state.taken header.opcode payload n).general k
        if state.setting.maxMessageSize < state.nextSize payload then
          .return true (taken.setParseError ⟨.MessageTooLarge, "Message size exceeds limit"⟩)
        else takenPass simd header taken := by
  have hctrl : ¬ isControlFrame (header.frame payload).header.opcode = true := by
    rw [show (header.frame payload).header.opcode = header.opcode from rfl, H.data]
    decide
  have hsize : ((state.taken header.opcode payload n).general k).message.length =
      state.nextSize payload := length_taken _ _ n
  have hsetting : ((state.taken header.opcode payload n).general k).setting =
      state.setting := setting_taken _ _ n
  have hlen : (header.frame payload).header.payloadLength = payload.length := H.length
  unfold acceptFrame
  simp only [hlen, if_neg hctrl, placePayload_general]
  by_cases hlarge : state.setting.maxFrameSize < payload.length
  · exact (if_pos hlarge).trans (if_pos hlarge).symm
  refine (if_neg hlarge).trans (Eq.trans ?_ (if_neg hlarge).symm)
  by_cases hfirst : state.firstFrame = true ∧ header.opcode = .Continuation
  · exact (if_pos hfirst).trans (if_pos hfirst).symm
  refine (if_neg hfirst).trans (Eq.trans ?_ (if_neg hfirst).symm)
  by_cases hrest : ¬ state.firstFrame = true ∧ header.opcode ≠ .Continuation
  · exact (if_pos hrest).trans (if_pos hrest).symm
  refine (if_neg hrest).trans (Eq.trans ?_ (if_neg hrest).symm)
  change (if ((state.taken header.opcode payload n).general k).setting.maxMessageSize <
    ((state.taken header.opcode payload n).general k).message.length then _ else _) = _
  rw [hsize, hsetting]
  by_cases hmsg : state.setting.maxMessageSize < state.nextSize payload
  · rw [if_pos hmsg, if_pos hmsg]
    rfl
  rw [if_neg hmsg, if_neg hmsg]
  unfold takenPass finish
  by_cases hfin : header.fin = true
  · refine (if_pos hfin).trans (Eq.trans ?_ (if_pos hfin).symm)
    split
    · next h => exact congrArg (Pass.return true) (if_pos h).symm
    next h => exact congrArg (Pass.return true) (if_neg h).symm
  exact (if_neg hfin).trans (if_neg hfin).symm

section

variable (htext : ¬ BadText header payload)
include htext

theorem FrontSpec.general_frameTooLarge (hlarge : state.setting.maxFrameSize < payload.length) :
    Fails ((state.general k).parsePass simd) .MessageTooLarge := by
  rw [H.general_accept htext, H.acceptFrame_eq, if_pos hlarge]
  exact fails_setParseError _ _

section

variable (hframe : ¬ state.setting.maxFrameSize < payload.length)

include hframe

theorem FrontSpec.general_outOfSequence (hseq : state.OutOfSequence header.opcode) :
    Fails ((state.general k).parsePass simd) .ProtocolError := by
  rw [H.general_accept htext, H.acceptFrame_eq, if_neg hframe]
  split
  · exact fails_setParseError _ _
  next hfirst =>
  split
  · exact fails_setParseError _ _
  next hrest =>
  rcases outOfSequence_first.2 hseq with h | h
  · exact absurd h hfirst
  exact absurd h hrest

theorem FrontSpec.general_tooLarge (hseq : ¬ state.OutOfSequence header.opcode)
    (hlarge : state.setting.maxMessageSize < state.nextSize payload) :
    Fails ((state.general k).parsePass simd) .MessageTooLarge := by
  obtain ⟨hfirst, hrest⟩ := not_outOfSequence hseq
  rw [H.general_accept htext, H.acceptFrame_eq, if_neg hframe, if_neg hfirst, if_neg hrest]
  simp only [if_pos hlarge]
  exact fails_setParseError _ _

theorem FrontSpec.general_taken (hseq : ¬ state.OutOfSequence header.opcode)
    (hmsg : ¬ state.setting.maxMessageSize < state.nextSize payload) :
    (state.general k).parsePass simd =
      takenPass simd header ((state.taken header.opcode payload header.frameLength).general k) := by
  obtain ⟨hfirst, hrest⟩ := not_outOfSequence hseq
  rw [H.general_accept htext, H.acceptFrame_eq, if_neg hframe, if_neg hfirst, if_neg hrest]
  simp only [if_neg hmsg]

end

end

end

/-! ## Agreement of whole runs -/

theorem Fails.run {code : WsErrorCode} (h : Fails (state.parsePass simd) code) :
    ∃ final error, parseFromBuffer simd state = (true, final) ∧ final.error = some error ∧
      error.code = code := by
  obtain ⟨final, error, hpass, hfinal, hcode⟩ := h
  refine ⟨final, error, ?_, hfinal, hcode⟩
  rw [parseFromBuffer_eq, hpass]

theorem Fails.agrees_iff
    (hleft : Fails (left.parsePass simd) code) (hright : Fails (right.parsePass simd) code') :
    Agrees (parseFromBuffer simd left) (parseFromBuffer simd right) ↔ code = code' := by
  obtain ⟨final, error, hrun, herr, hcode⟩ := hleft.run
  obtain ⟨final', error', hrun', herr', hcode'⟩ := hright.run
  rw [hrun, hrun']
  refine ⟨fun H => ?_, fun heq => ⟨rfl, ?_, fun hnone => ?_⟩⟩
  · have h := H.code
    simp only [herr, herr', Option.map_some, Option.some.injEq] at h
    rw [← hcode, ← hcode', h]
  · simp only [herr, herr', Option.map_some, hcode, hcode', heq]
  simp only [herr'] at hnone
  cases hnone

/-- A state is the same to the caller with either setting. -/
theorem agrees_same (complete : Bool) (final : WsMessageReadState) (k k' : Nat) :
    Agrees (complete, final.fast k) (complete, final.general k') :=
  ⟨rfl, rfl, fun _ => ⟨rfl, rfl, rfl⟩⟩

theorem finish_fast (final : WsMessageReadState) :
    finish simd header (final.fast k) = (finish simd header final).fast k := by
  by_cases h : final.opcode = .Text ∧ !(header.opcode = .Text && header.fin) ∧
      !isValidUtf8Bytes simd final.message
  · have hfinish : finish simd header final = final.setParseError { code := .InvalidUtf8 } :=
      if_pos h
    rw [hfinish]
    exact if_pos h
  have hfinish : finish simd header final = final := if_neg h
  rw [hfinish]
  exact if_neg h

theorem finish_general (final : WsMessageReadState) :
    finish simd header (final.general k) = (finish simd header final).general k := by
  by_cases h : final.opcode = .Text ∧ !(header.opcode = .Text && header.fin) ∧
      !isValidUtf8Bytes simd final.message
  · have hfinish : finish simd header final = final.setParseError { code := .InvalidUtf8 } :=
      if_pos h
    rw [hfinish]
    exact if_pos h
  have hfinish : finish simd header final = final := if_neg h
  rw [hfinish]
  exact if_neg h

theorem frontFrame_of_empty (h : state.ring.readable = 0) : frontFrame simd state = none := by
  rw [frontFrame, getReadIovecs_of_readable h]
  rfl

theorem not_diverges_of_none (h : frontFrame simd state = none) : ¬ Diverges simd state := by
  rintro (⟨hfront, -⟩ | ⟨hfront, -, -⟩ | ⟨hfront, -, -⟩)
  · rw [h] at hfront
    cases hfront
  · rw [h] at hfront
    cases hfront
  rw [h] at hfront
  cases hfront

/-- A pass that ends in the same way with either setting. -/
def Ends (pass : WsMessageReadState → Pass) (state : WsMessageReadState) : Prop :=
  ∃ (complete : Bool) (final : WsMessageReadState), ∀ k,
    pass (state.fast k) = .return complete (final.fast k) ∧
    pass (state.general k) = .return complete (final.general k)

theorem ends_checkIncomplete (state : WsMessageReadState) : Ends checkIncomplete state := by
  by_cases hlimit : state.setting.maxMessageSize <
      state.message.length + state.totalReceived + state.ring.readable
  · exact ⟨true, state.setParseError ⟨.MessageTooLarge, "Message size exceeds limit"⟩,
      fun k => ⟨if_pos hlimit, if_pos hlimit⟩⟩
  exact ⟨false, state, fun k => ⟨if_neg hlimit, if_neg hlimit⟩⟩

theorem ends_acceptFrame {frame : WsFrame} (hctrl : isControlFrame frame.header.opcode = true)
    (n : Nat) : Ends (fun state => (state.consume n).acceptFrame simd frame) state := by
  by_cases hlarge : state.setting.maxFrameSize < frame.header.payloadLength
  · exact ⟨true, (state.consume n).setParseError ⟨.MessageTooLarge, "Frame payload too large"⟩,
      fun k => ⟨if_pos hlarge, if_pos hlarge⟩⟩
  by_cases hfin : (!frame.header.fin) = true
  · refine ⟨true, (state.consume n).setParseError { code := .ControlFrameFragmented },
      fun k => ⟨?_, ?_⟩⟩
    · exact (if_neg hlarge).trans ((if_pos hctrl).trans (if_pos hfin))
    exact (if_neg hlarge).trans ((if_pos hctrl).trans (if_pos hfin))
  cases hcallback : state.hasControlCallback with
  | true =>
    have hpass : ∀ state' : WsMessageReadState, state'.setting = state.setting →
        state'.hasControlCallback = true → state'.acceptFrame simd frame =
        .return true { state' with
          controlCalls := state'.controlCalls ++ [(frame.header.opcode, frame.payload)]
          message := frame.payload
          opcode := frame.header.opcode } := by
      intro state' hsetting hcall
      unfold acceptFrame
      simp only [hsetting, if_neg hlarge, if_pos hctrl, if_neg hfin, if_pos hcall]
    exact ⟨true, { state.consume n with
      controlCalls := state.controlCalls ++ [(frame.header.opcode, frame.payload)]
      message := frame.payload
      opcode := frame.header.opcode }, fun k => ⟨hpass _ rfl hcallback, hpass _ rfl hcallback⟩⟩
  | false =>
  have hpass : ∀ state' : WsMessageReadState, state'.setting = state.setting →
      state'.hasControlCallback = false → state'.acceptFrame simd frame =
      .return true { state' with message := frame.payload, opcode := frame.header.opcode } := by
    intro state' hsetting hcall
    have hnocall : ¬ state'.hasControlCallback = true := ne_true_of_eq_false hcall
    unfold acceptFrame
    simp only [hsetting, if_neg hlarge, if_pos hctrl, if_neg hfin, if_neg hnocall]
  exact ⟨true, { state.consume n with message := frame.payload, opcode := frame.header.opcode },
    fun k => ⟨hpass _ rfl hcallback, hpass _ rfl hcallback⟩⟩

theorem ends_parseFrame (hctrl : ∀ {frame : WsFrame} {n : Nat},
      fromIOVec simd iovecs {} state.isServer = .ok (frame, n) →
        isControlFrame frame.header.opcode = true) :
    Ends (fun state => state.parseFrame simd iovecs) state := by
  cases hparse : fromIOVec simd iovecs {} state.isServer with
  | error code =>
    have hfast : ∀ k, fromIOVec simd iovecs {} (state.fast k).isServer = .error code :=
      fun _ => hparse
    have hgeneral : ∀ k, fromIOVec simd iovecs {} (state.general k).isServer = .error code :=
      fun _ => hparse
    by_cases hcode : code = .Incomplete
    · subst hcode
      obtain ⟨complete, final, hends⟩ := ends_checkIncomplete state
      refine ⟨complete, final, fun k => ⟨?_, ?_⟩⟩
      · rw [← (hends k).1]
        simp only [parseFrame, hfast]
      rw [← (hends k).2]
      simp only [parseFrame, hgeneral]
    refine ⟨true, state.setParseError { code }, fun k => ⟨?_, ?_⟩⟩
    · simp only [parseFrame, hfast]
      rfl
    simp only [parseFrame, hgeneral]
    rfl
  | ok result =>
  obtain ⟨frame, n⟩ := result
  have hfast : ∀ k, fromIOVec simd iovecs {} (state.fast k).isServer = .ok (frame, n) :=
    fun _ => hparse
  have hgeneral : ∀ k, fromIOVec simd iovecs {} (state.general k).isServer = .ok (frame, n) :=
    fun _ => hparse
  obtain ⟨complete, final, hends⟩ :=
    @ends_acceptFrame simd state frame (hctrl hparse) n
  refine ⟨complete, final, fun k => ⟨?_, ?_⟩⟩
  · rw [← (hends k).1]
    simp only [parseFrame, hfast]
  rw [← (hends k).2]
  simp only [parseFrame, hgeneral]

/-- Where no data frame stands at the front, both settings do the same. -/
theorem ends_parsePass (h : frontFrame simd state = none) : Ends (parsePass simd) state := by
  by_cases hnil : state.ring.getReadIovecs = []
  · exact ⟨false, state, fun k => ⟨if_pos hnil, if_pos hnil⟩⟩
  obtain ⟨status, hstatus⟩ := frontFrame_none h
  have hscan := scanned simd state.ring.getReadIovecs state.isServer
  -- The fast path hands the state on as it is.
  have hfast : ∀ k, (state.fast k).tryFastPath simd (state.fast k).ring.getReadIovecs =
      (status, state.fast k) := by
    intro k
    unfold tryFastPath
    rw [show scanWsMessageFastPathPrefix (state.fast k).ring.getReadIovecs (state.fast k).isServer =
      .error status from hstatus]
  have hgeneral : ∀ k, (state.general k).parsePass simd =
      (state.general k).parseFrame simd state.ring.getReadIovecs :=
    fun k => if_neg hnil
  rw [hstatus] at hscan
  cases hscan with
  | needMore hparse =>
    obtain ⟨complete, final, hends⟩ := ends_checkIncomplete state
    refine ⟨complete, final, fun k => ⟨?_, ?_⟩⟩
    · rw [← (hends k).1]
      refine (if_neg hnil).trans ((if_pos rfl).trans ?_)
      rw [hfast]
    rw [← (hends k).2, hgeneral, parseFrame, show fromIOVec simd state.ring.getReadIovecs {}
      (state.general k).isServer = .error .Incomplete from hparse]
  | fallback hctrl =>
  have hpass : ∀ k, (state.fast k).parsePass simd =
      (state.fast k).parseFrame simd state.ring.getReadIovecs := by
    intro k
    refine (if_neg hnil).trans ((if_pos rfl).trans ?_)
    rw [hfast]
    rfl
  obtain ⟨complete, final, hends⟩ := ends_parseFrame hctrl
  exact ⟨complete, final, fun k => ⟨(hpass k).trans (hends k).1, (hgeneral k).trans (hends k).2⟩⟩

/-! ## Where the paths differ -/

theorem diverges_iff (hfront : frontFrame simd state = some (header, payload)) :
    Diverges simd state ↔ Mismatch state header payload ∨
      (Stale state header payload ∧ ¬ (header.fin = false ∧
        EndsTooLarge simd (state.taken header.opcode payload header.frameLength))) ∨
      (Fragment state header payload ∧
        Diverges simd (state.taken header.opcode payload header.frameLength)) := by
  refine ⟨?_, ?_⟩
  · rintro (⟨hfront', h⟩ | ⟨hfront', h, hends⟩ | ⟨hfront', h, hlater⟩)
    · rw [hfront] at hfront'
      cases hfront'
      exact .inl h
    · rw [hfront] at hfront'
      cases hfront'
      exact .inr (.inl ⟨h, hends⟩)
    rw [hfront] at hfront'
    cases hfront'
    exact .inr (.inr ⟨h, hlater⟩)
  rintro (h | ⟨h, hends⟩ | ⟨h, hlater⟩)
  · exact .mismatch hfront h
  · exact .stale hfront h hends
  exact .later hfront h hlater

theorem parseFromBuffer_of_empty (h : state.ring.readable = 0) :
    parseFromBuffer simd state = (false, state) := by
  have hpass : state.parsePass simd = .return false state := if_pos (getReadIovecs_of_readable h)
  rw [parseFromBuffer_eq, hpass]

theorem parseFromBuffer_taken (h : state.parsePass simd = takenPass simd header final) :
    parseFromBuffer simd state =
      if header.fin then (true, finish simd header final) else parseFromBuffer simd final := by
  rw [parseFromBuffer_eq, h, takenPass]
  by_cases hfin : header.fin = true
  · rw [if_pos hfin, if_pos hfin]
  rw [if_neg hfin, if_neg hfin]
  by_cases hempty : final.ring.readable = 0
  · rw [if_pos hempty, parseFromBuffer_of_empty hempty]
  rw [if_neg hempty]

theorem finish_ne_messageTooLarge {error : WsError} (herr : state.error = none)
    (h : (finish simd header state).error = some error) : error.code ≠ .MessageTooLarge := by
  unfold finish at h
  split at h
  · cases h
    decide
  rw [herr] at h
  cases h

section
variable (H : FrontSpec simd state header payload) (hseq : ¬ state.OutOfSequence header.opcode)
  (htext : ¬ BadText header payload) (hframe : ¬ state.setting.maxFrameSize < payload.length)
  (hmsg : ¬ state.setting.maxMessageSize < state.nextSize payload)
include H hseq htext hframe hmsg

/-- The fast path counts an old message, the general path goes on without it. -/
theorem FrontSpec.agrees_stale (herr : state.error = none)
    (hold : state.setting.maxMessageSize < state.message.length + payload.length) :
    Agrees (parseFromBuffer simd (state.fast k)) (parseFromBuffer simd (state.general k')) ↔
      header.fin = false ∧
        EndsTooLarge simd (state.taken header.opcode payload header.frameLength) := by
  obtain ⟨final, error, hrun, hfinal, hcode⟩ :=
    (H.fast_tooLarge (k := k) hseq (.inr hold)).run
  have hnoError : (state.taken header.opcode payload header.frameLength).error = none := by
    rw [error_taken, herr]
  rw [hrun, parseFromBuffer_taken (H.general_taken (k := k') htext hframe hseq hmsg)]
  cases hfin : header.fin with
  | true =>
    rw [if_pos rfl]
    refine ⟨fun hagrees => ?_, fun h => nomatch h.1⟩
    have hsame := hagrees.code
    simp only [hfinal, Option.map_some, hcode] at hsame
    obtain ⟨error', herr', hcode'⟩ := Option.map_eq_some_iff.1 hsame.symm
    rw [finish_general] at herr'
    exact absurd hcode' (finish_ne_messageTooLarge hnoError herr')
  | false =>
  rw [if_neg Bool.false_ne_true, endsTooLarge_iff (k := k') hnoError]
  generalize parseFromBuffer simd
    ((state.taken header.opcode payload header.frameLength).general k') = run
  obtain ⟨complete, final'⟩ := run
  refine ⟨fun hagrees => ⟨rfl, ?_⟩, ?_⟩
  · have hsame := hagrees.code
    have hcompl : true = complete := hagrees.complete
    simp only [hfinal, Option.map_some, hcode] at hsame
    obtain ⟨error', herr', hcode'⟩ := Option.map_eq_some_iff.1 hsame.symm
    exact ⟨final', error', by rw [hcompl], herr', hcode'⟩
  rintro ⟨-, final'', error', heq, herr', hcode'⟩
  cases heq
  refine ⟨rfl, ?_, fun hnone => ?_⟩
  · simp only [hfinal, herr', Option.map_some, hcode, hcode']
  rw [herr'] at hnone
  cases hnone

theorem FrontSpec.agrees_taken
    (hold : ¬ state.setting.maxMessageSize < state.message.length + payload.length) :
    Agrees (parseFromBuffer simd (state.fast k)) (parseFromBuffer simd (state.general k')) ↔
      (header.fin = false → Agrees (parseFromBuffer simd
          ((state.taken header.opcode payload header.frameLength).fast (k + 1)))
        (parseFromBuffer simd
          ((state.taken header.opcode payload header.frameLength).general k'))) := by
  have hsmall : ¬ (state.setting.maxFrameSize < payload.length ∨
      state.setting.maxMessageSize < state.message.length + payload.length) :=
    not_or.2 ⟨hframe, hold⟩
  rw [parseFromBuffer_taken (H.fast_taken (k := k) hseq hsmall htext),
    parseFromBuffer_taken (H.general_taken (k := k') htext hframe hseq hmsg)]
  cases hfin : header.fin with
  | true =>
    rw [if_pos rfl, if_pos rfl, finish_fast, finish_general]
    exact ⟨fun _ h => (nomatch h), fun _ => agrees_same _ _ _ _⟩
  | false =>
  rw [if_neg Bool.false_ne_true, if_neg Bool.false_ne_true]
  exact ⟨fun h _ => h, fun h => h rfl⟩

/-- A fragment leaves fewer bytes, or none. -/
theorem FrontSpec.readable_taken (hfin : header.fin = false) :
    (state.taken header.opcode payload header.frameLength).ring.readable = 0 ∨
      (state.taken header.opcode payload header.frameLength).ring.readable <
        state.ring.readable := by
  rw [or_iff_not_imp_left]
  intro hmore
  have hpass := H.general_taken (k := 0) htext hframe hseq hmsg
  have hagain : (state.general 0).parsePass simd =
      .again ((state.taken header.opcode payload header.frameLength).general 0) := by
    rw [hpass, takenPass, hfin, if_neg Bool.false_ne_true]
    exact if_neg hmore
  have hlt : ((state.taken header.opcode payload header.frameLength).general 0).ring.readable <
      (state.general 0).ring.readable := parsePass_again hagain
  exact hlt

end

theorem agrees_fast_general (k k' : Nat) (herr : state.error = none) :
    Agrees (parseFromBuffer simd (state.fast k)) (parseFromBuffer simd (state.general k')) ↔
      ¬ Diverges simd state := by
  induction hm : state.ring.readable using Nat.strongRecOn generalizing state k with
  | ind m ih =>
  cases hfront : frontFrame simd state with
  | none =>
    obtain ⟨complete, final, hends⟩ := ends_parsePass hfront
    rw [parseFromBuffer_eq, (hends k).1, parseFromBuffer_eq, (hends k').2]
    exact ⟨fun _ => not_diverges_of_none hfront, fun _ => agrees_same complete final k k'⟩
  | some front =>
  obtain ⟨header, payload⟩ := front
  have H : FrontSpec simd state header payload := frontSpec hfront
  rw [diverges_iff hfront]
  by_cases hseq : state.OutOfSequence header.opcode
  · have hfast : Fails ((state.fast k).parsePass simd) .ProtocolError :=
      H.fast_outOfSequence hseq
    by_cases htext : BadText header payload
    · rw [hfast.agrees_iff (H.general_badText (k := k') htext)]
      exact ⟨fun h => (nomatch h), fun h => absurd (Or.inl (.sequence hseq (.inl htext))) h⟩
    by_cases hframe : state.setting.maxFrameSize < payload.length
    · rw [hfast.agrees_iff (H.general_frameTooLarge (k := k') htext hframe)]
      exact ⟨fun h => (nomatch h), fun h => absurd (Or.inl (.sequence hseq (.inr hframe))) h⟩
    rw [hfast.agrees_iff (H.general_outOfSequence (k := k') htext hframe hseq)]
    refine ⟨fun _ => ?_, fun _ => rfl⟩
    rintro ((⟨h, -, -⟩ | ⟨-, h | h⟩) | ⟨h, -⟩ | ⟨h, -⟩)
    · exact h hseq
    · exact htext h
    · exact hframe h
    · exact h.sequence hseq
    exact h.sequence hseq
  by_cases htext : BadText header payload
  · have hgeneral : Fails ((state.general k').parsePass simd) .InvalidUtf8 :=
      H.general_badText htext
    by_cases hlarge : state.setting.maxFrameSize < payload.length ∨
        state.setting.maxMessageSize < state.message.length + payload.length
    · rw [(H.fast_tooLarge (k := k) hseq hlarge).agrees_iff hgeneral]
      exact ⟨fun h => (nomatch h), fun h => absurd (Or.inl (.text hseq htext hlarge)) h⟩
    rw [(H.fast_badText (k := k) hseq hlarge htext).agrees_iff hgeneral]
    refine ⟨fun _ => ?_, fun _ => rfl⟩
    rintro ((⟨-, -, h⟩ | ⟨h, -⟩) | ⟨h, -⟩ | ⟨h, -⟩)
    · exact hlarge h
    · exact hseq h
    · exact h.text htext
    have hfin := htext.2.1
    rw [h.fin] at hfin
    cases hfin
  have hmismatch : ¬ Mismatch state header payload := by
    rintro (⟨-, h, -⟩ | ⟨h, -⟩)
    · exact htext h
    exact hseq h
  by_cases hframe : state.setting.maxFrameSize < payload.length
  · rw [(H.fast_tooLarge (k := k) hseq (.inl hframe)).agrees_iff
      (H.general_frameTooLarge (k := k') htext hframe)]
    refine ⟨fun _ => ?_, fun _ => rfl⟩
    rintro (h | ⟨h, -⟩ | ⟨h, -⟩)
    · exact hmismatch h
    · exact absurd h.frame (by omega)
    exact absurd h.frame (by omega)
  have hle : state.nextSize payload ≤ state.message.length + payload.length := nextSize_le payload
  by_cases hmsg : state.setting.maxMessageSize < state.nextSize payload
  · rw [(H.fast_tooLarge (k := k) hseq (.inr (by omega))).agrees_iff
      (H.general_tooLarge (k := k') htext hframe hseq hmsg)]
    refine ⟨fun _ => ?_, fun _ => rfl⟩
    rintro (h | ⟨h, -⟩ | ⟨h, -⟩)
    · exact hmismatch h
    · rw [nextSize, if_pos h.first] at hmsg
      exact absurd h.message (by omega)
    exact absurd h.message (by omega)
  by_cases hold : state.setting.maxMessageSize < state.message.length + payload.length
  · rw [H.agrees_stale hseq htext hframe hmsg herr hold]
    have hfirst : state.firstFrame = true := by
      by_contra hlater
      rw [nextSize, if_neg hlater] at hmsg
      exact hmsg hold
    have hstale : Stale state header payload := by
      rw [nextSize, if_pos hfirst] at hmsg
      exact ⟨hfirst, hseq, htext, by omega, by omega, hold⟩
    refine ⟨fun hends => ?_, fun h => ?_⟩
    · rintro (h | ⟨-, h⟩ | ⟨h, -⟩)
      · exact hmismatch h
      · exact h hends
      exact absurd h.message (by omega)
    by_contra hends
    exact h (.inr (.inl ⟨hstale, hends⟩))
  rw [H.agrees_taken hseq htext hframe hmsg hold]
  have hstale : ¬ Stale state header payload := fun h => hold h.old
  have hfragment : header.fin = false → Fragment state header payload :=
    fun hfin => ⟨hseq, hfin, by omega, by omega⟩
  have hnoError : (state.taken header.opcode payload header.frameLength).error = none := by
    rw [error_taken, herr]
  have hlater : header.fin = false → (Agrees (parseFromBuffer simd
        ((state.taken header.opcode payload header.frameLength).fast (k + 1))) (parseFromBuffer simd
        ((state.taken header.opcode payload header.frameLength).general k')) ↔
      ¬ Diverges simd (state.taken header.opcode payload header.frameLength)) := by
    intro hfin
    rcases H.readable_taken hseq htext hframe hmsg hfin with hempty | hlt
    · refine ⟨fun _ => not_diverges_of_none (frontFrame_of_empty hempty), fun _ => ?_⟩
      rw [@parseFromBuffer_of_empty simd ((state.taken _ _ _).fast (k + 1)) hempty,
        @parseFromBuffer_of_empty simd ((state.taken _ _ _).general k') hempty]
      exact agrees_same _ _ _ _
    exact ih _ (hm ▸ hlt) (k + 1) hnoError rfl
  refine ⟨fun hagrees => ?_, fun h hfin => ?_⟩
  · rintro (h | ⟨h, -⟩ | ⟨h, hdiverges⟩)
    · exact hmismatch h
    · exact hstale h
    exact (hlater h.fin).1 (hagrees h.fin) hdiverges
  rw [hlater hfin]
  exact fun hdiverges => h (.inr (.inr ⟨hfragment hfin, hdiverges⟩))

/-- Exactly when the setting `enable_fast_path` cannot be seen from outside. -/
theorem parseFromBuffer_agrees_iff (simd : Bool) (state : WsMessageReadState)
    (herr : state.error = none) :
    Agrees (parseFromBuffer simd { state with enableFastPath := true })
      (parseFromBuffer simd { state with enableFastPath := false }) ↔ ¬ Diverges simd state :=
  agrees_fast_general state.fastPathFrames state.fastPathFrames herr

/-- A client that reads into a string which holds four bytes of the last message, with a final
binary frame of two bytes in the buffer and a limit of five. -/
def staleString : WsMessageReadState where
  ring :=
    { backend := .Vector
      buffer := [0x82, 0x02, 0x68, 0x69, 0, 0, 0, 0]
      readIndex := 0
      writeIndex := 4
      size := 4
      size_le := by decide
      readIndex_lt := by decide
      writeIndex_eq := by decide }
  setting := { maxFrameSize := 16, maxMessageSize := 5 }
  message := [1, 2, 3, 4]
  opcode := .Close
  isServer := false

/-- The fast path rejects the frame that the general path returns. -/
theorem staleString_disagrees :
    ¬ Agrees (parseFromBuffer true { staleString with enableFastPath := true })
      (parseFromBuffer true { staleString with enableFastPath := false }) := by
  have hfast : ({ staleString with enableFastPath := true } : WsMessageReadState).parsePass true =
      .return true ({ staleString with enableFastPath := true }.setParseError
        ⟨.MessageTooLarge, "Message size exceeds limit"⟩) := by rfl
  have hgeneral : ({ staleString with enableFastPath := false } : WsMessageReadState).parsePass true =
      .return true { staleString with
        enableFastPath := false
        ring := staleString.ring.consume 4
        message := [0x68, 0x69]
        opcode := .Binary
        firstFrame := false } := by rfl
  rw [parseFromBuffer_eq, hfast, parseFromBuffer_eq, hgeneral]
  intro hagrees
  cases hagrees.code

theorem parseFromBuffer_agrees_iff_staleString :
    staleString.error = none ∧ (Agrees
      (parseFromBuffer true { staleString with enableFastPath := true })
      (parseFromBuffer true { staleString with enableFastPath := false }) ↔
        ¬ Diverges true staleString) :=
  ⟨rfl, parseFromBuffer_agrees_iff true staleString rfl⟩

end WsMessageReadState

end Galay.Ws
