import Galay.Ws.MessageFastPath
import Galay.Ws.Reassembly

/-!
# One run of the message reader over the frames of a peer

What one pass does with the frame at the front of the buffer, whole or in part, and from it what a
call of `parseFromBuffer` does with the frames of a conforming peer.
-/

namespace Galay.Ws

open List
open WsFrameParser

namespace WsMessageReadState

variable {simd : Bool} {state : WsMessageReadState} {frame : WsFrame} {tail : Bytes}

/-! ## The frame at the front -/

theorem fromIOVec_wire (H : frame.Acceptable)
    (hcont : state.ring.contents = frame.wire state.isServer ++ tail) :
    fromIOVec simd state.ring.getReadIovecs {} state.isServer =
      .ok (⟨parsedHeader frame.header.opcode frame.header.fin frame.payload.length state.isServer
        frame.header.maskingKey ({} : WsFrame).header.maskingKey, frame.payload⟩,
        (frame.wire state.isServer).length) := by
  rw [← RingBuffer.flatten_getReadIovecs] at hcont
  rw [fromIOVec_wireBytes H hcont simd {}, WsFrame.wire, length_wireBytes]

theorem fromIOVec_part (H : frame.Acceptable) {missing : Bytes} (hmissing : missing ≠ [])
    (hcont : state.ring.contents ++ missing = frame.wire state.isServer) :
    fromIOVec simd state.ring.getReadIovecs {} state.isServer = .error .Incomplete := by
  rw [← RingBuffer.flatten_getReadIovecs] at hcont
  exact fromIOVec_incomplete H hmissing hcont simd {}

theorem getReadIovecs_ne_nil (h : state.ring.contents ≠ []) : state.ring.getReadIovecs ≠ [] :=
  fun hnil => h (state.ring.getReadIovecs_eq_nil.1 hnil)

theorem checkPayload_ne_incomplete (opcode : WsOpcode) (fin : Bool) (payload : Bytes) :
    checkPayload simd opcode fin payload ≠ .error .Incomplete := by
  unfold checkPayload
  simp only
  split
  · next error hclose =>
    intro h
    cases h
    repeat' split at hclose
    all_goals cases hclose
  split
  · split <;> exact nofun
  exact nofun

theorem parsePass_part (hcont : state.ring.contents ≠ [])
    (hparse : fromIOVec simd state.ring.getReadIovecs {} state.isServer = .error .Incomplete) :
    state.parsePass simd = state.checkIncomplete := by
  have hne := getReadIovecs_ne_nil hcont
  have hscan := scanned simd state.ring.getReadIovecs state.isServer
  have hframe : state.parseFrame simd state.ring.getReadIovecs = state.checkIncomplete := by
    rw [parseFrame, hparse]
  unfold parsePass
  simp only [if_neg hne]
  split
  · unfold tryFastPath
    generalize scanWsMessageFastPathPrefix state.ring.getReadIovecs state.isServer = scan at hscan
    cases hscan with
    | needMore => rfl
    | fallback => exact hframe
    | @frame header data hread hlen hdata htwo hhdr =>
    rw [hparse] at hhdr
    split at hhdr
    · next error hcheck =>
      cases hhdr
      exact absurd hcheck (checkPayload_ne_incomplete _ _ _)
    cases hhdr
  exact hframe

theorem parsePass_control (hcont : state.ring.contents ≠ [])
    (hparse : fromIOVec simd state.ring.getReadIovecs {} state.isServer = .ok (frame, n))
    (hctrl : isControlFrame frame.header.opcode = true) :
    state.parsePass simd = (state.consume n).acceptFrame simd frame := by
  have hne := getReadIovecs_ne_nil hcont
  have hscan := scanned simd state.ring.getReadIovecs state.isServer
  have hframe : state.parseFrame simd state.ring.getReadIovecs =
      (state.consume n).acceptFrame simd frame := by
    rw [parseFrame, hparse]
  unfold parsePass
  simp only [if_neg hne]
  split
  · unfold tryFastPath
    generalize scanWsMessageFastPathPrefix state.ring.getReadIovecs state.isServer = scan at hscan
    cases hscan with
    | needMore hinc =>
      rw [hparse] at hinc
      cases hinc
    | fallback => exact hframe
    | @frame header data hread hlen hdata htwo hhdr =>
    rw [hparse] at hhdr
    split at hhdr
    · cases hhdr
    cases hhdr
    rw [show isControlFrame header.opcode = true from hctrl] at hdata
    cases hdata
  exact hframe

theorem acceptFrame_control (hctrl : isControlFrame frame.header.opcode = true)
    (hfin : frame.header.fin = true)
    (hsize : frame.header.payloadLength ≤ state.setting.maxFrameSize) :
    ∃ calls, state.acceptFrame simd frame = .return true { state with
      message := frame.payload
      opcode := frame.header.opcode
      controlCalls := calls } := by
  have hsize' : ¬ state.setting.maxFrameSize < frame.header.payloadLength := by omega
  unfold acceptFrame
  simp only [if_neg hsize', if_pos hctrl, hfin, Bool.not_true, Bool.false_eq_true, if_false]
  split
  · exact ⟨_, rfl⟩
  exact ⟨_, rfl⟩

/-- A whole data frame at the front, as the scanner sees it. -/
theorem frontSpec_wire (H : frame.Acceptable)
    (hdata : isControlFrame frame.header.opcode = false)
    (hcont : state.ring.contents = frame.wire state.isServer ++ tail) :
    ∃ header, FrontSpec simd state header frame.payload ∧ header.opcode = frame.header.opcode ∧
      header.fin = frame.header.fin ∧ header.frameLength = (frame.wire state.isServer).length := by
  have hparse := @fromIOVec_wire simd _ _ _ H hcont
  have hscan := scanned simd state.ring.getReadIovecs state.isServer
  cases hfront : frontFrame simd state with
  | none =>
    obtain ⟨status, hstatus⟩ := frontFrame_none hfront
    rw [hstatus] at hscan
    cases hscan with
    | needMore hinc =>
      rw [hparse] at hinc
      cases hinc
    | fallback hctrl =>
    have h := hctrl hparse
    rw [show isControlFrame (parsedHeader frame.header.opcode _ _ _ _ _).opcode = false from hdata]
      at h
    cases h
  | some front =>
  obtain ⟨header, payload⟩ := front
  have hspec : FrontSpec simd state header payload := frontSpec hfront
  have hhdr := hspec.parse
  rw [hparse] at hhdr
  split at hhdr
  · cases hhdr
  simp only [Except.ok.injEq, Prod.mk.injEq] at hhdr
  obtain ⟨hsame, hlen⟩ := hhdr
  have hpay : frame.payload = payload := congrArg WsFrame.payload hsame
  have hopcode : frame.header.opcode = header.opcode :=
    congrArg (fun frame : WsFrame => frame.header.opcode) hsame
  have hfin : frame.header.fin = header.fin :=
    congrArg (fun frame : WsFrame => frame.header.fin) hsame
  rw [hpay]
  exact ⟨header, hspec, hopcode.symm, hfin.symm, hlen.symm⟩

theorem parsePass_data (H : frame.Acceptable)
    (hdata : isControlFrame frame.header.opcode = false)
    (hcont : state.ring.contents = frame.wire state.isServer ++ tail)
    (hseq : ¬ state.OutOfSequence frame.header.opcode)
    (hframe : frame.payload.length ≤ state.setting.maxFrameSize)
    (hmsg : state.nextSize frame.payload ≤ state.setting.maxMessageSize)
    (hstring : state.enableFastPath = true →
      state.message.length + frame.payload.length ≤ state.setting.maxMessageSize) :
    ∃ header k, header.fin = frame.header.fin ∧ header.opcode = frame.header.opcode ∧
      state.parsePass simd = takenPass simd header
        { state.taken frame.header.opcode frame.payload (frame.wire state.isServer).length with
          fastPathFrames := k } := by
  obtain ⟨header, hspec, hopcode, hfin, hlen⟩ := @frontSpec_wire simd _ _ _ H hdata hcont
  have htext : ¬ BadText header frame.payload := by
    rintro ⟨htext, hfinal, hbad⟩
    rw [H.text (hopcode ▸ htext) (hfin ▸ hfinal)] at hbad
    cases hbad
  rw [← hopcode] at hseq
  rw [← hlen, ← hopcode]
  cases hpath : state.enableFastPath with
  | true =>
    have hsame : state.fast state.fastPathFrames = state := by rw [fast, ← hpath]
    have hsize := hstring hpath
    have hpass := hspec.fast_taken (k := state.fastPathFrames) hseq (by omega) htext
    rw [hsame] at hpass
    refine ⟨header, state.fastPathFrames + 1, hfin, rfl, hpass.trans ?_⟩
    have hkeep : (state.taken header.opcode frame.payload header.frameLength).enableFastPath =
        true := by
      rw [taken, placePayload]
      split <;> exact hpath
    rw [fast, ← hkeep]
  | false =>
  have hsame : state.general state.fastPathFrames = state := by rw [general, ← hpath]
  have hpass := hspec.general_taken (k := state.fastPathFrames) htext (by omega) hseq
    (by omega)
  rw [hsame] at hpass
  refine ⟨header, state.fastPathFrames, hfin, rfl, hpass.trans ?_⟩
  have hkeep : (state.taken header.opcode frame.payload header.frameLength).enableFastPath =
      false := by
    rw [taken, placePayload]
    split <;> exact hpath
  rw [general, ← hkeep]

/-! ## The message that has begun -/

def Holds (state : WsMessageReadState) : Option Message → Prop
  | none => state.firstFrame = true
  | some (opcode, payload) =>
    state.firstFrame = false ∧ state.opcode = opcode ∧ state.message = payload

variable {pending : Option Message} {frames : List WsFrame} {unread : Bytes}

theorem Holds.outOfSequence {opcode : WsOpcode} (h : state.Holds pending)
    (hseq : pending = none ↔ opcode ≠ .Continuation) : ¬ state.OutOfSequence opcode := by
  unfold OutOfSequence
  cases pending with
  | none =>
    rw [if_pos (show state.firstFrame = true from h)]
    exact hseq.1 rfl
  | some message =>
  rw [if_neg (by rw [h.1]; exact nofun)]
  exact fun hne => nomatch hseq.2 hne

theorem Holds.nextSize (h : state.Holds pending) (frame : WsFrame) :
    state.nextSize frame.payload = (extend pending frame).2.length := by
  unfold WsMessageReadState.nextSize
  cases pending with
  | none =>
    rw [if_pos (show state.firstFrame = true from h)]
    rfl
  | some message =>
  obtain ⟨opcode, payload⟩ := message
  obtain ⟨hbegun, -, hpay⟩ := h
  rw [if_neg (by rw [hbegun]; exact nofun), hpay, extend, length_append]

/-- What a data frame that has been taken leaves. -/
structure Takes (state : WsMessageReadState) (frame : WsFrame) (next : WsMessageReadState) :
    Prop where
  isServer : next.isServer = state.isServer
  setting : next.setting = state.setting
  totalReceived : next.totalReceived = state.totalReceived
  error : next.error = state.error
  ring : next.ring = state.ring.consume (frame.wire state.isServer).length
  holds {pending : Option Message} : state.Holds pending →
    next.Holds (some (extend pending frame))

theorem takes_taken (state : WsMessageReadState) (frame : WsFrame) (k : Nat) :
    state.Takes frame
      { state.taken frame.header.opcode frame.payload (frame.wire state.isServer).length with
        fastPathFrames := k } := by
  let consumed := state.consume (frame.wire state.isServer).length
  unfold taken placePayload
  cases hfirst : state.firstFrame with
  | true =>
    rw [if_pos (show consumed.firstFrame = true from hfirst)]
    refine ⟨rfl, rfl, rfl, rfl, rfl, ?_⟩
    intro pending h
    cases pending with
    | none => exact ⟨rfl, rfl, rfl⟩
    | some message =>
    have hbegun := h.1
    rw [hfirst] at hbegun
    cases hbegun
  | false =>
  rw [if_neg (show ¬ consumed.firstFrame = true by exact hfirst ▸ Bool.false_ne_true)]
  refine ⟨rfl, rfl, rfl, rfl, rfl, ?_⟩
  intro pending h
  cases pending with
  | none =>
    have hnone : state.firstFrame = true := h
    rw [hfirst] at hnone
    cases hnone
  | some message =>
  obtain ⟨opcode, payload⟩ := message
  obtain ⟨-, hopcode, hpay⟩ := h
  exact ⟨hfirst, hopcode, congrArg (· ++ frame.payload) hpay⟩

variable {next : WsMessageReadState}

theorem Takes.contents (h : state.Takes frame next)
    (hcont : state.ring.contents = frame.wire state.isServer ++ tail) :
    next.ring.contents = tail := by
  rw [h.ring, RingBuffer.contents_consume, hcont, drop_left]

theorem Takes.length_message (h : state.Takes frame next) (hholds : state.Holds pending) :
    next.message.length = state.nextSize frame.payload := by
  have hmsg : next.message = (extend pending frame).2 := (h.holds hholds).2.2
  rw [hmsg, hholds.nextSize frame]

/-! ## Room for a message -/

/-- The size of the string after more fragments. -/
def sizeWith (state : WsMessageReadState) : List WsFrame → Nat
  | [] => state.message.length
  | frame :: frames =>
    state.nextSize frame.payload + (frames.map fun frame => frame.payload.length).sum

/-- The size checks of the reader leave room: the fast path counts the string of an earlier run with
a first frame, and where fragments and the part of a frame stand in the buffer, the bytes read in
this run are counted with the message and the part. -/
structure Room (state : WsMessageReadState) : Prop where
  first {frame : WsFrame} {tail : Bytes} : state.firstFrame = true → state.enableFastPath = true →
    frame.Acceptable → isControlFrame frame.header.opcode = false →
    state.ring.contents = frame.wire state.isServer ++ tail →
    state.message.length + frame.payload.length ≤ state.setting.maxMessageSize
  part {fragments : List WsFrame} {frame : WsFrame} {part missing : Bytes} :
    (∀ fragment ∈ fragments, fragment.Acceptable ∧
      isControlFrame fragment.header.opcode = false ∧ fragment.header.fin = false) →
    frame.Acceptable → state.ring.contents = wireOf state.isServer fragments ++ part →
    part ++ missing = frame.wire state.isServer → part ≠ [] → missing ≠ [] →
    state.sizeWith fragments + state.totalReceived + part.length ≤ state.setting.maxMessageSize

theorem Takes.sizeWith (h : state.Takes frame next) (hholds : state.Holds pending)
    (fragments : List WsFrame) : next.sizeWith fragments = state.sizeWith (frame :: fragments) := by
  have hlen := h.length_message hholds
  have hbegun : next.firstFrame = false := (h.holds hholds).1
  cases fragments with
  | nil => rw [WsMessageReadState.sizeWith, hlen]; rfl
  | cons fragment fragments =>
  rw [WsMessageReadState.sizeWith, WsMessageReadState.sizeWith, WsMessageReadState.nextSize,
    if_neg (by rw [hbegun]; rintro ⟨⟩), hlen, map_cons, sum_cons, Nat.add_assoc]

theorem Room.taken (hroom : state.Room) (hholds : state.Holds pending)
    (htakes : state.Takes frame next) (H : frame.Acceptable)
    (hdata : isControlFrame frame.header.opcode = false) (hfin : frame.header.fin = false)
    (hcont : state.ring.contents = frame.wire state.isServer ++ tail) : next.Room where
  first := by
    intro _ _ hfirst
    have hbegun : next.firstFrame = false := (htakes.holds hholds).1
    rw [hbegun] at hfirst
    cases hfirst
  part := by
    intro fragments later part missing hfragments hlater hbytes hpart hne hmissing
    rw [htakes.contents hcont, htakes.isServer] at hbytes
    rw [htakes.isServer] at hpart
    have hmore := hroom.part
      (List.forall_mem_cons.2 ⟨⟨H, hdata, hfin⟩, hfragments⟩) hlater
      (by rw [hcont, hbytes, wireOf, wireOf, map_cons, flatten_cons,
        append_assoc]) hpart hne hmissing
    rw [htakes.sizeWith hholds, htakes.totalReceived, htakes.setting]
    exact hmore

/-! ## The frames that remain -/

/-- The buffer and the bytes not yet read hold the frames that remain. -/
structure Reads (state : WsMessageReadState) (pending : Option Message) (frames : List WsFrame)
    (unread : Bytes) : Prop where
  error : state.error = none
  holds : state.Holds pending
  bytes : state.ring.contents ++ unread = wireOf state.isServer frames
  conforming : Conforming state.setting state.ring.capacity state.isServer pending frames
  uninterrupted : Uninterrupted pending frames

/-- What a call of `parseFromBuffer` does with the frames that remain. -/
inductive Parsed (state : WsMessageReadState) (pending : Option Message) (frames : List WsFrame)
    (unread : Bytes) : Bool × WsMessageReadState → Prop
  | message {final : WsMessageReadState} {later : List WsFrame} : final.error = none →
    (∀ {next : WsMessageReadState}, final.NextRun next → next.Reads none later unread) →
    reassemble pending frames = (final.opcode, final.message) :: reassemble none later →
    final.ring.readable < state.ring.readable → Parsed state pending frames unread (true, final)
  | wait {waiting : WsMessageReadState} {pending' : Option Message} {frames' : List WsFrame} :
    waiting.Reads pending' frames' unread →
    reassemble pending frames = reassemble pending' frames' → (unread = [] → frames' = []) →
    0 < waiting.ring.writable → waiting.ring.readable ≤ state.ring.readable →
    Parsed state pending frames unread (false, waiting)
  | tooLarge {final : WsMessageReadState} : final.error ≠ none → ¬ state.Room →
    Parsed state pending frames unread (true, final)

theorem NextRun.ring {final : WsMessageReadState} (h : final.NextRun next) :
    next.ring = final.ring := by
  cases h with
  | reset => rfl
  | new message opcode => rfl

theorem NextRun.reads {final : WsMessageReadState} (h : final.NextRun next)
    (hbytes : final.ring.contents ++ unread = wireOf final.isServer frames)
    (hconf : Conforming final.setting final.ring.capacity final.isServer none frames)
    (hunint : Uninterrupted none frames) : next.Reads none frames unread := by
  cases h with
  | reset => exact ⟨rfl, rfl, hbytes, hconf, hunint⟩
  | new message opcode => exact ⟨rfl, rfl, hbytes, hconf, hunint⟩

theorem wire_length_pos (frame : WsFrame) (isServer : Bool) :
    0 < (frame.wire isServer).length := by
  rw [WsFrame.wire, wireBytes, length_cons]
  exact Nat.succ_pos _

theorem wireOf_cons (isServer : Bool) (frame : WsFrame) (frames : List WsFrame) :
    wireOf isServer (frame :: frames) = frame.wire isServer ++ wireOf isServer frames := by
  rw [wireOf, wireOf, map_cons, flatten_cons]

theorem eq_nil_of_wireOf_eq_nil {isServer : Bool} (h : wireOf isServer frames = []) :
    frames = [] := by
  cases frames with
  | nil => rfl
  | cons frame frames =>
  rw [wireOf_cons, append_eq_nil_iff] at h
  have hpos := wire_length_pos frame isServer
  rw [h.1] at hpos
  cases hpos

/-! ## One call -/

theorem parsed_empty (h : state.Reads pending frames unread) (hcont : state.ring.contents = []) :
    Parsed state pending frames unread (parseFromBuffer simd state) := by
  have hpass : state.parsePass simd = .return false state := by
    unfold parsePass
    exact if_pos (state.ring.getReadIovecs_eq_nil.2 hcont)
  have hsize : state.ring.readable = 0 := by rw [← RingBuffer.length_contents, hcont, length_nil]
  have hroom : 0 < state.ring.writable := by
    have hcap : 0 < state.ring.capacity := state.ring.capacity_pos
    have hwritable : state.ring.writable = state.ring.capacity - state.ring.readable := rfl
    omega
  rw [parseFromBuffer_eq, hpass]
  refine .wait h rfl ?_ hroom (Nat.le_refl _)
  intro hunread
  have hbytes := h.bytes
  rw [hcont, hunread, nil_append] at hbytes
  exact eq_nil_of_wireOf_eq_nil hbytes.symm

/-- The buffer ends within the first frame. -/
theorem parsed_part {missing : Bytes} (h : state.Reads pending (frame :: frames) unread)
    (hcont : state.ring.contents ≠ []) (hmissing : missing ≠ [])
    (hpart : state.ring.contents ++ missing = frame.wire state.isServer)
    (hunread : unread = missing ++ wireOf state.isServer frames) :
    Parsed state pending (frame :: frames) unread (parseFromBuffer simd state) := by
  have hadm := h.conforming.1
  have hpass := parsePass_part hcont
    (@fromIOVec_part simd state frame hadm.acceptable missing hmissing hpart)
  have hpositive := List.length_pos_iff.2 hmissing
  have hlen := congrArg List.length hpart
  rw [length_append, RingBuffer.length_contents] at hlen
  have hroom : 0 < state.ring.writable := by
    have hfits := hadm.buffer_size
    have hwritable : state.ring.writable = state.ring.capacity - state.ring.readable := rfl
    omega
  rw [parseFromBuffer_eq, hpass]
  unfold checkIncomplete
  by_cases hlarge : state.setting.maxMessageSize <
      state.message.length + state.totalReceived + state.ring.readable
  · rw [if_pos hlarge]
    refine .tooLarge nofun ?_
    intro hfits
    have hbound : state.sizeWith [] + state.totalReceived + state.ring.contents.length ≤
        state.setting.maxMessageSize :=
      hfits.part (fun _ hnone => nomatch hnone) hadm.acceptable rfl hpart hcont hmissing
    rw [RingBuffer.length_contents, sizeWith] at hbound
    omega
  rw [if_neg hlarge]
  refine .wait h rfl ?_ hroom (Nat.le_refl _)
  intro hnone
  rw [hnone] at hunread
  exact absurd (List.append_eq_nil_iff.1 hunread.symm).1 hmissing

theorem parsed_control (h : state.Reads pending (frame :: frames) unread)
    (hctrl : isControlFrame frame.header.opcode = true)
    (hcont : state.ring.contents = frame.wire state.isServer ++ tail)
    (htail : tail ++ unread = wireOf state.isServer frames) :
    Parsed state pending (frame :: frames) unread (parseFromBuffer simd state) := by
  obtain ⟨hadm, hlater⟩ := h.conforming
  obtain ⟨hunint, hquiet⟩ := h.uninterrupted
  have hpend := hunint hctrl
  have hafter : pendingAfter pending frame = none := by rw [pendingAfter, if_pos hctrl, hpend]
  rw [hafter] at hlater hquiet
  have hne : state.ring.contents ≠ [] := by
    intro hnil
    rw [hcont, append_eq_nil_iff] at hnil
    have hpos := wire_length_pos frame state.isServer
    rw [hnil.1] at hpos
    cases hpos
  have hpass := parsePass_control hne
    (@fromIOVec_wire simd _ _ _ hadm.acceptable hcont) hctrl
  obtain ⟨calls, haccept⟩ := @acceptFrame_control simd
    (state.consume (frame.wire state.isServer).length)
    ⟨parsedHeader frame.header.opcode frame.header.fin frame.payload.length state.isServer
      frame.header.maskingKey ({} : WsFrame).header.maskingKey, frame.payload⟩ hctrl
    (hadm.acceptable.control hctrl).1 hadm.frame_size
  rw [parseFromBuffer_eq, hpass, haccept]
  refine .message h.error (fun hnext => hnext.reads ?_ ?_ hquiet) ?_ ?_
  · refine Eq.trans (congrArg (· ++ unread) ?_) htail
    exact (state.ring.contents_consume _).trans (by rw [hcont, drop_left])
  · exact (state.ring.capacity_consume (frame.wire state.isServer).length).symm ▸ hlater
  · rw [reassemble, completed, if_pos hctrl, hafter]
    rfl
  refine Nat.lt_of_le_of_lt (Nat.le_of_eq (state.ring.readable_consume _)) ?_
  have hpos := wire_length_pos frame state.isServer
  have hsize : 0 < state.ring.readable := by
    rw [← RingBuffer.length_contents]
    exact List.length_pos_iff.2 hne
  omega

/-- The text of a message that a conforming peer completes is valid. -/
theorem finish_eq (h : Admissible state.setting state.ring.capacity state.isServer pending frame)
    (hdata : isControlFrame frame.header.opcode = false) (hfin : frame.header.fin = true)
    (hholds : next.Holds (some (extend pending frame))) : finish simd header next = next := by
  have hopcode : next.opcode = (extend pending frame).1 := hholds.2.1
  have hmsg : next.message = (extend pending frame).2 := hholds.2.2
  refine if_neg ?_
  rintro ⟨htext, -, hbad⟩
  have hvalid := h.text hdata hfin (hopcode.symm.trans htext)
  rw [hmsg, isValidUtf8Bytes_eq, hvalid] at hbad
  cases hbad

theorem Takes.rest (h : state.Reads pending (frame :: frames) unread)
    (htakes : state.Takes frame next)
    (hcont : state.ring.contents = frame.wire state.isServer ++ tail)
    (htail : tail ++ unread = wireOf state.isServer frames) :
    next.ring.contents ++ unread = wireOf next.isServer frames ∧
      Conforming next.setting next.ring.capacity next.isServer (pendingAfter pending frame)
        frames := by
  rw [htakes.contents hcont, htakes.setting, htakes.isServer, htakes.ring,
    RingBuffer.capacity_consume]
  exact ⟨htail, h.conforming.2⟩

theorem Takes.readable_lt (htakes : state.Takes frame next)
    (hcont : state.ring.contents = frame.wire state.isServer ++ tail) :
    next.ring.readable < state.ring.readable := by
  have hpos := wire_length_pos frame state.isServer
  rw [← RingBuffer.length_contents, ← RingBuffer.length_contents, htakes.contents hcont,
    hcont, length_append]
  omega

/-- A fragment leaves its message to the frames behind it. -/
theorem Takes.parsed {result : Bool × WsMessageReadState} (htakes : state.Takes frame next)
    (h : state.Reads pending (frame :: frames) unread)
    (hdata : isControlFrame frame.header.opcode = false) (hfin : frame.header.fin = false)
    (hcont : state.ring.contents = frame.wire state.isServer ++ tail)
    (hrest : Parsed next (some (extend pending frame)) frames unread result) :
    Parsed state pending (frame :: frames) unread result := by
  have hless := htakes.readable_lt hcont
  have hmessages : reassemble pending (frame :: frames) =
      reassemble (some (extend pending frame)) frames := by
    rw [reassemble, completed, pendingAfter, if_neg (by rw [hdata]; exact nofun),
      if_neg (by rw [hfin]; exact nofun), if_neg (by rw [hdata]; exact nofun),
      if_neg (by rw [hfin]; exact nofun)]
    rfl
  cases hrest with
  | message herr hreads hmsg hreadable =>
    exact .message herr hreads (hmessages.trans hmsg) (by omega)
  | wait hreads hmsg hunread hroom hreadable =>
    exact .wait hreads (hmessages.trans hmsg) hunread hroom (by omega)
  | tooLarge herr hroom =>
  refine .tooLarge herr ?_
  intro hfits
  exact hroom (hfits.taken h.holds htakes h.conforming.1.acceptable hdata hfin hcont)

theorem parsed_longString (h : state.Reads pending (frame :: frames) unread)
    (hdata : isControlFrame frame.header.opcode = false)
    (hcont : state.ring.contents = frame.wire state.isServer ++ tail)
    (hstring : ¬ (state.enableFastPath = true →
      state.message.length + frame.payload.length ≤ state.setting.maxMessageSize)) :
    Parsed state pending (frame :: frames) unread (parseFromBuffer simd state) := by
  have hadm := h.conforming.1
  obtain ⟨hpath, hlarge⟩ := Classical.not_imp.1 hstring
  obtain ⟨header, hspec, hopcode, -, -⟩ :=
    @frontSpec_wire simd _ _ _ hadm.acceptable hdata hcont
  have hseq := h.holds.outOfSequence (hadm.sequence hdata)
  rw [← hopcode] at hseq
  have hsame : state.fast state.fastPathFrames = state := by rw [fast, ← hpath]
  have hfails := hspec.fast_tooLarge (k := state.fastPathFrames) hseq (.inr (by omega))
  rw [hsame] at hfails
  obtain ⟨final, error, hpass, herr, -⟩ := hfails
  rw [parseFromBuffer_eq, hpass]
  refine .tooLarge (by rw [herr]; rintro ⟨⟩) ?_
  intro hroom
  cases hfirst : state.firstFrame with
  | true => exact hlarge (hroom.first hfirst hpath hadm.acceptable hdata hcont)
  | false =>
  have hsize := hadm.message_size hdata
  rw [← h.holds.nextSize frame, nextSize, if_neg (by rw [hfirst]; rintro ⟨⟩)] at hsize
  exact hlarge hsize

theorem parsed_data (h : state.Reads pending (frame :: frames) unread)
    (hdata : isControlFrame frame.header.opcode = false)
    (hcont : state.ring.contents = frame.wire state.isServer ++ tail)
    (htail : tail ++ unread = wireOf state.isServer frames)
    (ih : ∀ {next : WsMessageReadState} {later : Option Message},
      next.Reads later frames unread → Parsed next later frames unread (parseFromBuffer simd next)) :
    Parsed state pending (frame :: frames) unread (parseFromBuffer simd state) := by
  have hadm := h.conforming.1
  have hseq := h.holds.outOfSequence (hadm.sequence hdata)
  have hmsg : state.nextSize frame.payload ≤ state.setting.maxMessageSize := by
    rw [h.holds.nextSize frame]
    exact hadm.message_size hdata
  by_cases hstring : state.enableFastPath = true →
      state.message.length + frame.payload.length ≤ state.setting.maxMessageSize
  case neg => exact parsed_longString h hdata hcont hstring
  obtain ⟨header, k, hhdr, -, hpass⟩ := @parsePass_data simd _ _ _ hadm.acceptable hdata
    hcont hseq hadm.frame_size hmsg hstring
  have htakes := takes_taken state frame k
  revert hpass htakes
  generalize ({ state.taken frame.header.opcode frame.payload (frame.wire state.isServer).length with
    fastPathFrames := k } : WsMessageReadState) = next
  intro hpass htakes
  have hholds := htakes.holds h.holds
  obtain ⟨hrest, hconf⟩ := htakes.rest h hcont htail
  have hunint := h.uninterrupted.2
  rw [parseFromBuffer_eq, hpass, takenPass, hhdr]
  cases hfin : frame.header.fin with
  | true =>
    have hafter : pendingAfter pending frame = none := by
      rw [pendingAfter, if_neg (by rw [hdata]; rintro ⟨⟩), if_pos hfin]
    have hfinish : finish simd header next = next := finish_eq hadm hdata hfin hholds
    rw [if_pos rfl, hfinish]
    rw [hafter] at hconf hunint
    have hlater : ∀ {later : WsMessageReadState}, next.NextRun later →
        later.Reads none frames unread :=
      fun hlater => hlater.reads hrest hconf hunint
    refine .message (htakes.error.trans h.error) hlater ?_ (htakes.readable_lt hcont)
    rw [reassemble, completed, if_neg (by rw [hdata]; rintro ⟨⟩), if_pos hfin, hafter, hholds.2.1,
      hholds.2.2]
    rfl
  | false =>
  have hafter : pendingAfter pending frame = some (extend pending frame) := by
    rw [pendingAfter, if_neg (by rw [hdata]; rintro ⟨⟩), if_neg (by rw [hfin]; rintro ⟨⟩)]
  rw [hafter] at hconf hunint
  have hreads : next.Reads (some (extend pending frame)) frames unread :=
    ⟨htakes.error.trans h.error, hholds, hrest, hconf, hunint⟩
  refine htakes.parsed h hdata hfin hcont ?_
  rw [if_neg Bool.false_ne_true]
  by_cases hempty : next.ring.readable = 0
  · have hnil : next.ring.contents = [] := by
      rw [← length_eq_zero_iff, RingBuffer.length_contents]
      exact hempty
    have hparsed := @parsed_empty simd _ _ _ _ hreads hnil
    have hpass : next.parsePass simd = .return false next := by
      unfold parsePass
      exact if_pos (next.ring.getReadIovecs_eq_nil.2 hnil)
    rw [parseFromBuffer_eq, hpass] at hparsed
    rw [if_pos hempty]
    exact hparsed
  rw [if_neg hempty]
  exact ih hreads

theorem parsed (h : state.Reads pending frames unread) :
    Parsed state pending frames unread (parseFromBuffer simd state) := by
  induction frames generalizing state pending with
  | nil =>
    refine parsed_empty h ?_
    exact (List.append_eq_nil_iff.1 (h.bytes.trans rfl)).1
  | cons frame frames ih =>
  by_cases hnil : state.ring.contents = []
  · exact parsed_empty h hnil
  have hbytes := h.bytes
  rw [wireOf_cons] at hbytes
  by_cases hwhole : (frame.wire state.isServer).length ≤ state.ring.contents.length
  · obtain ⟨tail, hcont, htail⟩ := exists_append_of_le hbytes hwhole
    cases hctrl : isControlFrame frame.header.opcode with
    | true => exact parsed_control h hctrl hcont htail
    | false => exact parsed_data h hctrl hcont htail ih
  obtain ⟨missing, hpart, hunread⟩ := exists_append_of_le hbytes.symm (by omega)
  refine parsed_part h hnil ?_ hpart.symm hunread.symm
  intro hnone
  rw [hpart, hnone, append_nil] at hwhole
  exact hwhole (Nat.le_refl _)

end WsMessageReadState

end Galay.Ws
