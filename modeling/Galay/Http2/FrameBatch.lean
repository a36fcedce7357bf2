import Galay.Http2.FrameCodec
import Galay.Utils.RingBuffer

/-!
# Frames read from the ring buffer (`kernel/http2_conn.h`)

`parseSingleBufferedFrame` takes one frame off the buffer, `parseBufferedFrameBatch` up to
`max_frames` of them. The scratch vector of the source is where a frame that lies across two
segments is put together before it is parsed; the model parses the bytes put together.
-/

namespace Galay.Http2

open List

structure Http2BufferedFrameStatus where
  header : Http2FrameHeader := {}
  totalFrameSize : Nat := 0
  complete : Bool := false
  error : Option Http2ErrorCode := none

def decodeFrameHeader (iovecs : IoVecs) : Option Http2FrameHeader :=
  match IoVecWindow.firstNonEmpty iovecs with
  | none => none
  | some segment =>
    if kHttp2FrameHeaderLength ≤ segment.length then some (.deserialize segment)
    else
      let headerBuf := IoVecBytes.copyPrefix iovecs kHttp2FrameHeaderLength
      if headerBuf.length < kHttp2FrameHeaderLength then none
      else some (.deserialize headerBuf)

def isKnownHttp2FrameType : Http2FrameType → Bool
  | .Unknown _ => false
  | _ => true

def inspectBufferedFrame (ring : RingBuffer) (maxFrameSize : UInt32) : Http2BufferedFrameStatus :=
  if ring.readable < kHttp2FrameHeaderLength then {}
  else if ring.getReadIovecs = [] then {}
  else match decodeFrameHeader ring.getReadIovecs with
    | none => {}
    | some header =>
      if maxFrameSize < header.length then { header, error := some .FrameSizeError }
      else
        let totalFrameSize := kHttp2FrameHeaderLength + header.length.toNat
        { header, totalFrameSize, complete := totalFrameSize ≤ ring.readable }

/-- The complete frame at the front, parsed in place if its first segment holds all of it. -/
def parseFrontFrame (ring : RingBuffer) (totalFrameSize : Nat) : Except Http2ErrorCode Http2Frame :=
  let scratch : Except Http2ErrorCode Http2Frame :=
    let copied := IoVecBytes.copyPrefix ring.getReadIovecs totalFrameSize
    if copied.length < totalFrameSize then .error .ProtocolError
    else Http2FrameParser.parseFrame copied
  match IoVecWindow.firstNonEmpty ring.getReadIovecs with
  | some segment =>
    if totalFrameSize ≤ segment.length then
      Http2FrameParser.parseFrame (segment.take totalFrameSize)
    else scratch
  | none => scratch

theorem consume_lt_of_complete (h : (inspectBufferedFrame ring maxFrameSize).complete = true) :
    (ring.consume (inspectBufferedFrame ring maxFrameSize).totalFrameSize).readable <
      ring.readable := by
  have hshape : ∀ status, status = inspectBufferedFrame ring maxFrameSize →
      status.complete = true →
      kHttp2FrameHeaderLength ≤ ring.readable ∧ kHttp2FrameHeaderLength ≤ status.totalFrameSize := by
    intro status hstatus hcompl
    unfold inspectBufferedFrame at hstatus
    split at hstatus
    · subst hstatus; cases hcompl
    split at hstatus
    · subst hstatus; cases hcompl
    split at hstatus
    · subst hstatus; cases hcompl
    split at hstatus
    · subst hstatus; cases hcompl
    subst hstatus
    exact ⟨by omega, Nat.le_add_right _ _⟩
  obtain ⟨hreadable, htotal⟩ := hshape _ rfl h
  rw [RingBuffer.readable_consume]
  simp only [kHttp2FrameHeaderLength] at hreadable htotal
  omega

/-- Frames of unknown types are skipped. `NoError` says that the bytes of a frame are missing. -/
def parseSingleBufferedFrame (ring : RingBuffer) (maxFrameSize : UInt32) :
    Except Http2ErrorCode Http2Frame × RingBuffer :=
  let status := inspectBufferedFrame ring maxFrameSize
  match status.error with
  | some error => (.error error, ring)
  | none =>
    if hcompl : status.complete = true then
      if isKnownHttp2FrameType status.header.type then
        match parseFrontFrame ring status.totalFrameSize with
        | .error error => (.error error, ring)
        | .ok frame => (.ok frame, ring.consume status.totalFrameSize)
      else parseSingleBufferedFrame (ring.consume status.totalFrameSize) maxFrameSize
    else (.error .NoError, ring)
termination_by ring.readable
decreasing_by exact consume_lt_of_complete hcompl

/-- The loop of `parseBufferedFrameBatch`, with the frames pushed so far. -/
def parseBufferedFrameBatchLoop (ring : RingBuffer) (maxFrameSize : UInt32) (maxFrames : Nat)
    (frames : List Http2Frame) : Except Http2ErrorCode (List Http2Frame) × RingBuffer :=
  if frames.length < maxFrames then
    let status := inspectBufferedFrame ring maxFrameSize
    match status.error with
    | some error => (.error error, ring)
    | none =>
      if hcompl : status.complete = true then
        if isKnownHttp2FrameType status.header.type then
          match parseFrontFrame ring status.totalFrameSize with
          | .error error => (.error error, ring)
          | .ok frame =>
            parseBufferedFrameBatchLoop (ring.consume status.totalFrameSize) maxFrameSize maxFrames
              (frames ++ [frame])
        else
          parseBufferedFrameBatchLoop (ring.consume status.totalFrameSize) maxFrameSize maxFrames
            frames
      else (.ok frames, ring)
  else (.ok frames, ring)
termination_by ring.readable
decreasing_by all_goals exact consume_lt_of_complete hcompl

def parseBufferedFrameBatch (ring : RingBuffer) (maxFrameSize : UInt32) (maxFrames : Nat) :
    Except Http2ErrorCode (List Http2Frame) × RingBuffer :=
  parseBufferedFrameBatchLoop ring maxFrameSize maxFrames []

/-- What `Http2FrameBatchReadState` completes with; nothing while no frame is there. -/
def Http2FrameBatchReadState.parseFromRingBuffer (ring : RingBuffer) (maxFrameSize : UInt32)
    (maxFrames : Nat) : Option (Except Http2ErrorCode (List Http2Frame)) × RingBuffer :=
  match parseBufferedFrameBatch ring maxFrameSize maxFrames with
  | (.error error, ring) => (some (.error error), ring)
  | (.ok [], ring) => (none, ring)
  | (.ok frames, ring) => (some (.ok frames), ring)

/-- Up to `n` calls of `parseSingleBufferedFrame`, until one does not return a frame. -/
def parseSingleBufferedFrames (ring : RingBuffer) (maxFrameSize : UInt32) :
    (n : Nat) → List Http2Frame × Option Http2ErrorCode × RingBuffer
  | 0 => ([], none, ring)
  | n + 1 =>
    match parseSingleBufferedFrame ring maxFrameSize with
    | (.error .NoError, ring) => ([], none, ring)
    | (.error error, ring) => ([], some error, ring)
    | (.ok frame, ring) =>
      let (frames, error, ring) := parseSingleBufferedFrames ring maxFrameSize n
      (frame :: frames, error, ring)

/-! ## Byte strings in place of segments -/

namespace Http2FrameHeader

theorem deserialize_append (hlen : kHttp2FrameHeaderLength ≤ bytes.length)
    (rest : Bytes) : deserialize (bytes ++ rest) = deserialize bytes := by
  rw [kHttp2FrameHeaderLength] at hlen
  unfold deserialize
  rw [take_append_of_le_length (by omega), drop_append_of_le_length (by omega),
    take_append_of_le_length (by rw [length_drop]; omega),
    getD_append _ _ _ _ (by omega), getD_append _ _ _ _ (by omega)]

theorem deserialize_take (hn : kHttp2FrameHeaderLength ≤ n)
    (hlen : n ≤ bytes.length) : deserialize (bytes.take n) = deserialize bytes := by
  conv => rhs; rw [← take_append_drop n bytes]
  exact (deserialize_append (by rw [length_take]; omega) _).symm

end Http2FrameHeader

theorem decodeFrameHeader_eq (hlen : kHttp2FrameHeaderLength ≤ iovecs.flatten.length) :
    decodeFrameHeader iovecs = some (.deserialize iovecs.flatten) := by
  have hne : iovecs.flatten ≠ [] := by
    rintro hnil
    rw [hnil] at hlen
    cases hlen
  obtain ⟨segment, hseg⟩ := IoVecWindow.firstNonEmpty_of_ne_nil hne
  unfold decodeFrameHeader
  rw [hseg]
  simp only
  split
  · next hfits =>
    obtain ⟨rest, hrest⟩ := IoVecWindow.firstNonEmpty_isPrefix hseg
    rw [hrest, Http2FrameHeader.deserialize_append hfits]
  rw [IoVecBytes.copyPrefix_eq, if_neg (by rw [length_take]; omega),
    Http2FrameHeader.deserialize_take (Nat.le_refl _) hlen]

theorem parseFrontFrame_eq (htotal : total ≤ ring.readable) :
    parseFrontFrame ring total = Http2FrameParser.parseFrame (ring.contents.take total) := by
  have hcopied : IoVecBytes.copyPrefix ring.getReadIovecs total = ring.contents.take total := by
    rw [IoVecBytes.copyPrefix_eq, RingBuffer.flatten_getReadIovecs]
  have hlen : ¬ (ring.contents.take total).length < total := by
    rw [length_take, RingBuffer.length_contents]
    omega
  unfold parseFrontFrame
  simp only [hcopied, if_neg hlen]
  split
  · next segment hseg =>
    split
    · next hfits =>
      obtain ⟨rest, hrest⟩ := IoVecWindow.firstNonEmpty_isPrefix hseg
      rw [← RingBuffer.flatten_getReadIovecs, hrest, take_append_of_le_length hfits]
    rfl
  rfl

/-! ## The front of a byte string

What both functions do next depends on the bytes held alone. -/

inductive Front
  /-- Bytes are missing. -/
  | incomplete
  | malformed (error : Http2ErrorCode)
  /-- A complete frame of an unknown type. -/
  | skipped (size : Nat)
  | frame (frame : Http2Frame) (size : Nat)

def front (maxFrameSize : UInt32) (bytes : Bytes) : Front :=
  let header := Http2FrameHeader.deserialize bytes
  let total := kHttp2FrameHeaderLength + header.length.toNat
  if bytes.length < kHttp2FrameHeaderLength then .incomplete
  else if maxFrameSize < header.length then .malformed .FrameSizeError
  else if bytes.length < total then .incomplete
  else if isKnownHttp2FrameType header.type then
    match Http2FrameParser.parseFrame (bytes.take total) with
    | .error error => .malformed error
    | .ok frame => .frame frame total
  else .skipped total

/-- `inspectBufferedFrame` and the parse of the front, read off the bytes held. -/
inductive Inspected (ring : RingBuffer) (status : Http2BufferedFrameStatus) : Front → Prop
  | incomplete : status.error = none → status.complete = false → Inspected ring status .incomplete
  | tooLarge : status.error = some .FrameSizeError →
    Inspected ring status (.malformed .FrameSizeError)
  | skipped : status.error = none → status.complete = true →
    isKnownHttp2FrameType status.header.type = false →
    Inspected ring status (.skipped status.totalFrameSize)
  | malformed {error : Http2ErrorCode} : status.error = none → status.complete = true →
    isKnownHttp2FrameType status.header.type = true →
    parseFrontFrame ring status.totalFrameSize = .error error →
    Inspected ring status (.malformed error)
  | frame {frame : Http2Frame} : status.error = none → status.complete = true →
    isKnownHttp2FrameType status.header.type = true →
    parseFrontFrame ring status.totalFrameSize = .ok frame →
    Inspected ring status (.frame frame status.totalFrameSize)

theorem inspected (ring : RingBuffer) (maxFrameSize : UInt32) :
    Inspected ring (inspectBufferedFrame ring maxFrameSize) (front maxFrameSize ring.contents) := by
  unfold inspectBufferedFrame front
  rw [RingBuffer.length_contents]
  by_cases hshort : ring.readable < kHttp2FrameHeaderLength
  · rw [if_pos hshort]
    simp only [if_pos hshort]
    exact .incomplete rfl rfl
  have hlen : kHttp2FrameHeaderLength ≤ ring.getReadIovecs.flatten.length := by
    rw [RingBuffer.flatten_getReadIovecs, RingBuffer.length_contents]
    omega
  have hne : ring.getReadIovecs ≠ [] := by
    rintro hnil
    rw [hnil] at hlen
    cases hlen
  rw [if_neg hshort, if_neg hne, decodeFrameHeader_eq hlen, RingBuffer.flatten_getReadIovecs]
  simp only [if_neg hshort]
  split
  · exact .tooLarge rfl
  by_cases hmissing : ring.readable < kHttp2FrameHeaderLength +
      (Http2FrameHeader.deserialize ring.contents).length.toNat
  · rw [if_pos hmissing]
    exact .incomplete rfl (by simpa using hmissing)
  have hcompl : decide (kHttp2FrameHeaderLength +
      (Http2FrameHeader.deserialize ring.contents).length.toNat ≤ ring.readable) = true := by
    simpa using hmissing
  rw [if_neg hmissing]
  split
  · next hknown =>
    rw [← parseFrontFrame_eq (Nat.le_of_not_lt hmissing)]
    split
    · next herr => exact .malformed rfl hcompl hknown herr
    next hok => exact .frame rfl hcompl hknown hok
  next hunknown => exact .skipped rfl hcompl (by simpa using hunknown)

variable {ring : RingBuffer} {maxFrameSize : UInt32}

theorem parseSingleBufferedFrame_eq :
    parseSingleBufferedFrame ring maxFrameSize =
      match front maxFrameSize ring.contents with
      | .incomplete => (.error .NoError, ring)
      | .malformed error => (.error error, ring)
      | .skipped size => parseSingleBufferedFrame (ring.consume size) maxFrameSize
      | .frame frame size => (.ok frame, ring.consume size) := by
  have H := inspected ring maxFrameSize
  rw [parseSingleBufferedFrame]
  generalize inspectBufferedFrame ring maxFrameSize = status at H ⊢
  generalize front maxFrameSize ring.contents = shown at H ⊢
  cases H with
  | incomplete herr hcompl => simp [herr, hcompl]
  | tooLarge herr => simp [herr]
  | skipped herr hcompl hknown => simp [herr, hcompl, hknown]
  | malformed herr hcompl hknown hparse => simp [herr, hcompl, hknown, hparse]
  | frame herr hcompl hknown hparse => simp [herr, hcompl, hknown, hparse]

theorem parseBufferedFrameBatchLoop_eq {maxFrames : Nat} {frames : List Http2Frame}
    (hroom : frames.length < maxFrames) :
    parseBufferedFrameBatchLoop ring maxFrameSize maxFrames frames =
      match front maxFrameSize ring.contents with
      | .incomplete => (.ok frames, ring)
      | .malformed error => (.error error, ring)
      | .skipped size =>
        parseBufferedFrameBatchLoop (ring.consume size) maxFrameSize maxFrames frames
      | .frame frame size =>
        parseBufferedFrameBatchLoop (ring.consume size) maxFrameSize maxFrames
          (frames ++ [frame]) := by
  have H := inspected ring maxFrameSize
  rw [parseBufferedFrameBatchLoop, if_pos hroom]
  generalize inspectBufferedFrame ring maxFrameSize = status at H ⊢
  generalize front maxFrameSize ring.contents = shown at H ⊢
  cases H with
  | incomplete herr hcompl => simp [herr, hcompl]
  | tooLarge herr => simp [herr]
  | skipped herr hcompl hknown => simp [herr, hcompl, hknown]
  | malformed herr hcompl hknown hparse => simp [herr, hcompl, hknown, hparse]
  | frame herr hcompl hknown hparse => simp [herr, hcompl, hknown, hparse]

/-! ## Complete and malformed frames -/

def isKnownFrame (bytes : Bytes) : Bool :=
  isKnownHttp2FrameType (Http2FrameHeader.deserialize bytes).type

/-- The bytes of one frame that the parser takes or skips. -/
structure CompleteFrame (maxFrameSize : UInt32) (bytes : Bytes) : Prop where
  length : bytes.length =
    kHttp2FrameHeaderLength + (Http2FrameHeader.deserialize bytes).length.toNat
  fits : (Http2FrameHeader.deserialize bytes).length ≤ maxFrameSize
  parses : isKnownFrame bytes = true → ∃ frame, Http2FrameParser.parseFrame bytes = .ok frame

/-- The bytes start with a frame that the parser rejects. -/
inductive Malformed (maxFrameSize : UInt32) (bytes : Bytes) : Prop
  | tooLarge : kHttp2FrameHeaderLength ≤ bytes.length →
    maxFrameSize < (Http2FrameHeader.deserialize bytes).length → Malformed maxFrameSize bytes
  | payload {rest : Bytes} {frame : Bytes} {error : Http2ErrorCode} : bytes = frame ++ rest →
    frame.length =
      kHttp2FrameHeaderLength + (Http2FrameHeader.deserialize frame).length.toNat →
    (Http2FrameHeader.deserialize frame).length ≤ maxFrameSize → isKnownFrame frame = true →
    Http2FrameParser.parseFrame frame = .error error → Malformed maxFrameSize bytes

variable {bytes rest : Bytes}

theorem CompleteFrame.header_le (H : CompleteFrame maxFrameSize bytes) :
    kHttp2FrameHeaderLength ≤ bytes.length := by
  rw [H.length]
  exact Nat.le_add_right _ _

theorem front_append
    (hlen : bytes.length =
      kHttp2FrameHeaderLength + (Http2FrameHeader.deserialize bytes).length.toNat)
    (hfits : (Http2FrameHeader.deserialize bytes).length ≤ maxFrameSize) :
    front maxFrameSize (bytes ++ rest) =
      if isKnownFrame bytes then
        match Http2FrameParser.parseFrame bytes with
        | .error error => .malformed error
        | .ok frame => .frame frame bytes.length
      else .skipped bytes.length := by
  have hhdr : kHttp2FrameHeaderLength ≤ bytes.length := by
    rw [hlen]
    exact Nat.le_add_right _ _
  unfold front
  simp only [Http2FrameHeader.deserialize_append hhdr, ← hlen, length_append]
  rw [if_neg (by omega), if_neg (UInt32.not_lt.2 hfits), if_neg (by omega),
    take_append_of_le_length (Nat.le_refl _), take_length]
  rfl

theorem CompleteFrame.front_append_skipped (H : CompleteFrame maxFrameSize bytes)
    (hknown : isKnownFrame bytes = false) (rest : Bytes) :
    front maxFrameSize (bytes ++ rest) = .skipped bytes.length := by
  rw [front_append H.length H.fits, hknown]
  rfl

theorem CompleteFrame.front_append_frame (H : CompleteFrame maxFrameSize bytes)
    (hknown : isKnownFrame bytes = true) (rest : Bytes) :
    ∃ frame, Http2FrameParser.parseFrame bytes = .ok frame ∧
      front maxFrameSize (bytes ++ rest) = .frame frame bytes.length := by
  obtain ⟨frame, hparse⟩ := H.parses hknown
  refine ⟨frame, hparse, ?_⟩
  rw [front_append H.length H.fits, if_pos hknown, hparse]

theorem Malformed.front_eq (H : Malformed maxFrameSize bytes) :
    ∃ error, front maxFrameSize bytes = .malformed error := by
  cases H with
  | tooLarge hhdr hlarge =>
    refine ⟨.FrameSizeError, ?_⟩
    unfold front
    simp only
    rw [if_neg (Nat.not_lt.2 hhdr), if_pos hlarge]
  | @payload rest frame error heq hlen hfits hknown hparse =>
  refine ⟨error, ?_⟩
  rw [heq, front_append hlen hfits, if_pos hknown, hparse]

/-- What `front` says of the bytes, as a statement about a first frame and what follows. -/
inductive FrontSpec (maxFrameSize : UInt32) (bytes : Bytes) : Front → Prop
  | incomplete : FrontSpec maxFrameSize bytes .incomplete
  | malformed {error : Http2ErrorCode} : Malformed maxFrameSize bytes →
    FrontSpec maxFrameSize bytes (.malformed error)
  | skipped {size : Nat} : CompleteFrame maxFrameSize (bytes.take size) →
    isKnownFrame (bytes.take size) = false → FrontSpec maxFrameSize bytes (.skipped size)
  | frame {frame : Http2Frame} {size : Nat} : CompleteFrame maxFrameSize (bytes.take size) →
    isKnownFrame (bytes.take size) = true →
    Http2FrameParser.parseFrame (bytes.take size) = .ok frame →
    FrontSpec maxFrameSize bytes (.frame frame size)

theorem frontSpec (maxFrameSize : UInt32) (bytes : Bytes) :
    FrontSpec maxFrameSize bytes (front maxFrameSize bytes) := by
  unfold front
  simp only
  split
  · exact .incomplete
  next hhdr =>
  split
  · next hlarge => exact .malformed (.tooLarge (Nat.le_of_not_lt hhdr) hlarge)
  next hfits =>
  split
  · exact .incomplete
  next hcompl =>
  have hle := Nat.le_of_not_lt hcompl
  have hdeser := Http2FrameHeader.deserialize_take (n := kHttp2FrameHeaderLength +
      (Http2FrameHeader.deserialize bytes).length.toNat)
    (Nat.le_add_right _ (Http2FrameHeader.deserialize bytes).length.toNat) hle
  have hlen := length_take_of_le hle
  have hfits' := UInt32.not_lt.1 hfits
  rw [← hdeser] at hfits'
  split
  · next hknown =>
    have hknown' : isKnownFrame (bytes.take (kHttp2FrameHeaderLength +
        (Http2FrameHeader.deserialize bytes).length.toNat)) = true := by
      rw [isKnownFrame, hdeser, hknown]
    split
    · next hparse =>
      exact .malformed (.payload (take_append_drop _ _).symm
        (by rw [hlen, hdeser]) hfits' hknown' hparse)
    next hparse =>
    exact .frame ⟨by rw [hlen, hdeser], hfits', fun _ => ⟨_, hparse⟩⟩ hknown' hparse
  next hunknown =>
  have hunknown' : isKnownFrame (bytes.take (kHttp2FrameHeaderLength +
      (Http2FrameHeader.deserialize bytes).length.toNat)) = false := by
    rw [isKnownFrame, hdeser]
    simpa using hunknown
  exact .skipped ⟨by rw [hlen, hdeser], hfits',
    fun hknown => absurd hknown (by simp [hunknown'])⟩ hunknown'

/-! ## A rejected frame is not reported as a missing one -/

variable {header : Http2FrameHeader}

theorem readPadLength_error_ne
    (h : readPadLength header data = .error error) : error ≠ .NoError := by
  cases data <;> grind [readPadLength]

theorem dropPadding_error_ne (h : dropPadding header padLength data = .error error) :
    error ≠ .NoError := by
  grind [dropPadding]

theorem parsePayload_error_ne
    (h : Http2FrameParser.parsePayload header data = .error error) : error ≠ .NoError := by
  unfold Http2FrameParser.parsePayload at h
  split at h
  · cases data <;> grind [Http2DataFrame.parsePayload, Except.map]
  · grind [Http2HeadersFrame.parsePayload, Http2HeadersFrame.parsePriority,
      readPadLength_error_ne, dropPadding_error_ne, Except.map]
  · grind [Http2PriorityFrame.parsePayload, Except.map]
  · grind [Http2RstStreamFrame.parsePayload, Except.map]
  · grind [Http2SettingsFrame.parsePayload, Except.map]
  · grind [Http2PushPromiseFrame.parsePayload, readPadLength_error_ne, dropPadding_error_ne,
      Except.map]
  · grind [Http2PingFrame.parsePayload, Except.map]
  · grind [Http2GoAwayFrame.parsePayload, Except.map]
  · grind [Http2WindowUpdateFrame.parsePayload, Except.map]
  · grind [Http2ContinuationFrame.parsePayload, Except.map]
  grind

theorem front_malformed_ne
    (h : front maxFrameSize bytes = .malformed error) : error ≠ .NoError := by
  unfold front Http2FrameParser.parseFrame at h
  grind [parsePayload_error_ne]

/-! ## Runs over the frames held

One relation for both functions: the frames taken off the buffer in order, until `n` frames of
known types are found, bytes are missing or a frame is rejected. -/

/-- `before` are the bytes of the frames taken off, `frames` those of known types, parsed. -/
inductive Scan (maxFrameSize : UInt32) : (n : Nat) → (ring : RingBuffer) → (before : List Bytes) →
    (frames : List Http2Frame) → (error : Option Http2ErrorCode) → (last : RingBuffer) → Prop
  | limit (ring : RingBuffer) : Scan maxFrameSize 0 ring [] [] none ring
  | incomplete (n : Nat) {ring : RingBuffer} : front maxFrameSize ring.contents = .incomplete →
    Scan maxFrameSize (n + 1) ring [] [] none ring
  | malformed (n : Nat) {ring : RingBuffer} {error : Http2ErrorCode} :
    front maxFrameSize ring.contents = .malformed error →
    Scan maxFrameSize (n + 1) ring [] [] (some error) ring
  | skipped {n size : Nat} {ring last : RingBuffer} {before : List Bytes}
    {frames : List Http2Frame} {error : Option Http2ErrorCode} :
    front maxFrameSize ring.contents = .skipped size →
    Scan maxFrameSize (n + 1) (ring.consume size) before frames error last →
    Scan maxFrameSize (n + 1) ring (ring.contents.take size :: before) frames error last
  | frame {n size : Nat} {ring last : RingBuffer} {frame : Http2Frame} {before : List Bytes}
    {frames : List Http2Frame} {error : Option Http2ErrorCode} :
    front maxFrameSize ring.contents = .frame frame size →
    Scan maxFrameSize n (ring.consume size) before frames error last →
    Scan maxFrameSize (n + 1) ring (ring.contents.take size :: before) (frame :: frames) error last

variable {n : Nat} {before : List Bytes} {frames : List Http2Frame}
  {error : Option Http2ErrorCode} {last : RingBuffer}

/-- The bytes of a complete frame are not empty, so a scan ends. -/
theorem consume_lt (hcompl : CompleteFrame maxFrameSize (ring.contents.take size)) :
    (ring.consume size).readable < ring.readable := by
  have hhdr := hcompl.header_le
  rw [length_take, RingBuffer.length_contents, kHttp2FrameHeaderLength] at hhdr
  rw [RingBuffer.readable_consume]
  omega

theorem exists_scan (maxFrameSize : UInt32) (n : Nat) (ring : RingBuffer) :
    ∃ before frames error last, Scan maxFrameSize n ring before frames error last := by
  induction hm : ring.readable using Nat.strongRecOn generalizing ring n with
  | ind m ih =>
  cases n with
  | zero => exact ⟨_, _, _, _, .limit ring⟩
  | succ n =>
  have hspec := frontSpec maxFrameSize ring.contents
  generalize hfront : front maxFrameSize ring.contents = shown at hspec
  cases hspec with
  | incomplete => exact ⟨_, _, _, _, .incomplete n hfront⟩
  | malformed => exact ⟨_, _, _, _, .malformed n hfront⟩
  | skipped hcompl =>
    obtain ⟨before, frames, error, last, hscan⟩ :=
      ih _ (hm ▸ consume_lt hcompl) (n + 1) (ring.consume _) rfl
    exact ⟨_, _, _, _, .skipped hfront hscan⟩
  | frame hcompl =>
  obtain ⟨before, frames, error, last, hscan⟩ :=
    ih _ (hm ▸ consume_lt hcompl) n (ring.consume _) rfl
  exact ⟨_, _, _, _, .frame hfront hscan⟩

/-- A scan as a statement about the bytes. -/
structure Scan.Split (maxFrameSize : UInt32) (n : Nat) (bytes : Bytes) (before : List Bytes)
    (frames : List Http2Frame) (error : Option Http2ErrorCode) (rest : Bytes) : Prop where
  contents : bytes = before.flatten ++ rest
  complete : ∀ frame ∈ before, CompleteFrame maxFrameSize frame
  known : (before.filter isKnownFrame).map Http2FrameParser.parseFrame = frames.map .ok
  malformed : error.isSome → Malformed maxFrameSize rest ∧ frames.length < n

theorem Scan.split (H : Scan maxFrameSize n ring before frames error last) :
    Scan.Split maxFrameSize n ring.contents before frames error last.contents := by
  induction H with
  | limit => exact ⟨rfl, by simp, rfl, by simp⟩
  | incomplete => exact ⟨rfl, by simp, rfl, by simp⟩
  | @malformed n ring error hfront =>
    have hspec := frontSpec maxFrameSize ring.contents
    rw [hfront] at hspec
    cases hspec with
    | malformed hmalformed => exact ⟨rfl, by simp, rfl, fun _ => ⟨hmalformed, Nat.succ_pos _⟩⟩
  | @skipped n size ring last before frames error hfront _ ih =>
    have hspec := frontSpec maxFrameSize ring.contents
    rw [hfront] at hspec
    cases hspec with
    | skipped hcompl hknown =>
    refine ⟨?_, ?_, ?_, ih.malformed⟩
    · rw [flatten_cons, append_assoc, ← ih.contents, RingBuffer.contents_consume, take_append_drop]
    · rintro frame (_ | ⟨_, hmem⟩)
      exacts [hcompl, ih.complete _ hmem]
    rw [filter_cons_of_neg (by simp [hknown]), ih.known]
  | @frame n size ring last frame before frames error hfront _ ih =>
  have hspec := frontSpec maxFrameSize ring.contents
  rw [hfront] at hspec
  cases hspec with
  | frame hcompl hknown hparse =>
  refine ⟨?_, ?_, ?_, fun herr => ?_⟩
  · rw [flatten_cons, append_assoc, ← ih.contents, RingBuffer.contents_consume, take_append_drop]
  · rintro frame (_ | ⟨_, hmem⟩)
    exacts [hcompl, ih.complete _ hmem]
  · rw [filter_cons_of_pos hknown, map_cons, hparse, ih.known, map_cons]
  obtain ⟨hmalformed, hlen⟩ := ih.malformed herr
  exact ⟨hmalformed, Nat.succ_lt_succ hlen⟩

theorem exists_scan_malformed (hcont : ring.contents = before.flatten ++ rest)
    (hcompl : ∀ frame ∈ before, CompleteFrame maxFrameSize frame)
    (hmalformed : Malformed maxFrameSize rest) (hn : (before.filter isKnownFrame).length < n) :
    ∃ frames error last, Scan maxFrameSize n ring before frames (some error) last ∧
      frames.length = (before.filter isKnownFrame).length := by
  induction before generalizing ring n with
  | nil =>
    obtain ⟨error, hfront⟩ := hmalformed.front_eq
    obtain ⟨n, rfl⟩ := Nat.exists_eq_add_one_of_ne_zero (Nat.ne_of_gt (Nat.lt_of_le_of_lt
      (Nat.zero_le _) hn))
    rw [flatten_nil, nil_append] at hcont
    exact ⟨[], error, ring, .malformed n (hcont ▸ hfront), rfl⟩
  | cons bytes before ih =>
  have hhead := hcompl bytes mem_cons_self
  have htail := fun frame hmem => hcompl frame (mem_cons_of_mem bytes hmem)
  obtain ⟨n, rfl⟩ := Nat.exists_eq_add_one_of_ne_zero (Nat.ne_of_gt (Nat.lt_of_le_of_lt
    (Nat.zero_le _) hn))
  rw [flatten_cons, append_assoc] at hcont
  have htake : ring.contents.take bytes.length = bytes := by rw [hcont, take_left]
  have hrest : (ring.consume bytes.length).contents = before.flatten ++ rest := by
    rw [RingBuffer.contents_consume, hcont, drop_left]
  cases hknown : isKnownFrame bytes with
  | false =>
    rw [filter_cons_of_neg (by simp [hknown])] at hn ⊢
    obtain ⟨frames, error, last, hscan, hlen⟩ := ih hrest htail hn
    refine ⟨frames, error, last, ?_, hlen⟩
    have hfront := hhead.front_append_skipped hknown (before.flatten ++ rest)
    simpa only [htake] using Scan.skipped (hcont ▸ hfront) hscan
  | true =>
  rw [filter_cons_of_pos hknown, length_cons] at hn ⊢
  obtain ⟨frames, error, last, hscan, hlen⟩ := ih hrest htail (Nat.lt_of_succ_lt_succ hn)
  obtain ⟨frame, _, hfront⟩ :=
    hhead.front_append_frame hknown (before.flatten ++ rest)
  refine ⟨frame :: frames, error, last, ?_, by rw [length_cons, hlen]⟩
  simpa only [htake] using Scan.frame (hcont ▸ hfront) hscan

/-! ## Both functions follow the scan -/

theorem Scan.parseSingleBufferedFrames (H : Scan maxFrameSize n ring before frames error last) :
    parseSingleBufferedFrames ring maxFrameSize n = (frames, error, last) := by
  induction H with
  | limit => rfl
  | incomplete _ hfront => rw [Http2.parseSingleBufferedFrames, parseSingleBufferedFrame_eq, hfront]
  | @malformed n ring error hfront =>
    have hne := front_malformed_ne hfront
    rw [Http2.parseSingleBufferedFrames, parseSingleBufferedFrame_eq, hfront]
    cases error with
    | NoError => exact absurd rfl hne
    | _ => rfl
  | skipped hfront _ ih =>
    rw [Http2.parseSingleBufferedFrames] at ih
    rw [Http2.parseSingleBufferedFrames, parseSingleBufferedFrame_eq, hfront]
    exact ih
  | frame hfront _ ih =>
  rw [Http2.parseSingleBufferedFrames, parseSingleBufferedFrame_eq, hfront]
  simp only [ih]

/-- The frames are returned unless one is rejected: the error then takes their place. -/
def batchResult (frames : List Http2Frame) :
    Option Http2ErrorCode → Except Http2ErrorCode (List Http2Frame)
  | none => .ok frames
  | some error => .error error

theorem Scan.parseBufferedFrameBatchLoop (H : Scan maxFrameSize n ring before frames error last)
    {maxFrames : Nat} {pushed : List Http2Frame} (hroom : pushed.length + n = maxFrames) :
    parseBufferedFrameBatchLoop ring maxFrameSize maxFrames pushed =
      (batchResult (pushed ++ frames) error, last) := by
  induction H generalizing pushed with
  | limit =>
    rw [Http2.parseBufferedFrameBatchLoop, if_neg (by omega), append_nil]
    rfl
  | incomplete _ hfront =>
    rw [parseBufferedFrameBatchLoop_eq (by omega), hfront, append_nil]
    rfl
  | malformed _ hfront =>
    rw [parseBufferedFrameBatchLoop_eq (by omega), hfront]
    rfl
  | skipped hfront _ ih =>
    rw [parseBufferedFrameBatchLoop_eq (by omega), hfront]
    exact ih hroom
  | @frame n size ring last frame before frames error hfront _ ih =>
  rw [parseBufferedFrameBatchLoop_eq (by omega), hfront]
  simp only
  rw [ih (by rw [length_append, length_singleton]; omega), append_assoc, singleton_append]

theorem Scan.parseBufferedFrameBatch (H : Scan maxFrameSize n ring before frames error last) :
    parseBufferedFrameBatch ring maxFrameSize n = (batchResult frames error, last) :=
  H.parseBufferedFrameBatchLoop (Nat.zero_add n : ([] : List Http2Frame).length + n = n)

/-! ## What a batch delivers -/

def delivered : Except Http2ErrorCode (List Http2Frame) → List Http2Frame
  | .ok frames => frames
  | .error _ => []

def failure : Except Http2ErrorCode (List Http2Frame) → Option Http2ErrorCode
  | .ok _ => none
  | .error error => some error

theorem Http2FrameBatchReadState.delivered_parseFromRingBuffer (ring : RingBuffer)
    (maxFrameSize : UInt32) (maxFrames : Nat) :
    (parseFromRingBuffer ring maxFrameSize maxFrames).1.elim [] delivered =
      delivered (parseBufferedFrameBatch ring maxFrameSize maxFrames).1 := by
  unfold parseFromRingBuffer
  split
  · next hbatch => rw [hbatch]; rfl
  · next hbatch => rw [hbatch]; rfl
  next hbatch => rw [hbatch]; rfl

/-- A batch returns the frames and the error of repeated single reads, and every frame of a known
type that it takes off the buffer is among those it returns. -/
structure LosesNothing (ring : RingBuffer) (maxFrameSize : UInt32) (maxFrames : Nat) : Prop where
  frames : delivered (parseBufferedFrameBatch ring maxFrameSize maxFrames).1 =
    (parseSingleBufferedFrames ring maxFrameSize maxFrames).1
  error : failure (parseBufferedFrameBatch ring maxFrameSize maxFrames).1 =
    (parseSingleBufferedFrames ring maxFrameSize maxFrames).2.1
  readState : (Http2FrameBatchReadState.parseFromRingBuffer ring maxFrameSize maxFrames).1.elim []
    delivered = (parseSingleBufferedFrames ring maxFrameSize maxFrames).1
  consumed : ∃ before : List Bytes,
    ring.contents =
      before.flatten ++ (parseBufferedFrameBatch ring maxFrameSize maxFrames).2.contents ∧
    (∀ bytes ∈ before, CompleteFrame maxFrameSize bytes) ∧
    (before.filter isKnownFrame).map Http2FrameParser.parseFrame =
      (delivered (parseBufferedFrameBatch ring maxFrameSize maxFrames).1).map .ok

/-- One or more frames of known types, fewer than `max_frames`, stand before a malformed frame. -/
def FrameThenMalformed (maxFrameSize : UInt32) (maxFrames : Nat) (bytes : Bytes) : Prop :=
  ∃ (before : List Bytes) (rest : Bytes), bytes = before.flatten ++ rest ∧
    (∀ frame ∈ before, CompleteFrame maxFrameSize frame) ∧ Malformed maxFrameSize rest ∧
    0 < (before.filter isKnownFrame).length ∧ (before.filter isKnownFrame).length < maxFrames

theorem not_losesNothing (h : FrameThenMalformed maxFrameSize n ring.contents) :
    ¬ LosesNothing ring maxFrameSize n := by
  obtain ⟨before, rest, hcont, hcompl, hmalformed, hpos, hlt⟩ := h
  obtain ⟨frames, error, last, hscan, hlen⟩ :=
    exists_scan_malformed hcont hcompl hmalformed hlt
  intro H
  have hframes := H.frames
  rw [hscan.parseBufferedFrameBatch, hscan.parseSingleBufferedFrames] at hframes
  have hnil : frames = [] := hframes.symm
  rw [hnil] at hlen
  exact absurd hlen (Nat.ne_of_lt hpos)

theorem parseBufferedFrameBatch_losesNothing_iff (ring : RingBuffer) (maxFrameSize : UInt32) (maxFrames : Nat) :
    LosesNothing ring maxFrameSize maxFrames ↔
      ¬ FrameThenMalformed maxFrameSize maxFrames ring.contents := by
  refine ⟨fun H h => not_losesNothing h H, fun hnone => ?_⟩
  obtain ⟨before, frames, error, last, hscan⟩ := exists_scan maxFrameSize maxFrames ring
  have hsplit := hscan.split
  have hbatch := hscan.parseBufferedFrameBatch
  -- The batch keeps its frames: an error only replaces an empty list of them.
  have hdeliv : delivered (batchResult frames error) = frames := by
    cases error with
    | none => rfl
    | some error =>
    obtain ⟨hmalformed, hlt⟩ := hsplit.malformed rfl
    have hlen : (before.filter isKnownFrame).length = frames.length := by
      simpa using congrArg List.length hsplit.known
    cases frames with
    | nil => rfl
    | cons frame frames =>
    refine absurd ⟨before, last.contents, hsplit.contents, hsplit.complete, hmalformed, ?_, ?_⟩
      hnone
    · rw [hlen]
      exact Nat.succ_pos _
    rw [hlen]
    exact hlt
  refine ⟨?_, ?_, ?_, before, ?_, hsplit.complete, ?_⟩
  · rw [hbatch, hscan.parseSingleBufferedFrames, hdeliv]
  · rw [hbatch, hscan.parseSingleBufferedFrames]
    cases error <;> rfl
  · rw [Http2FrameBatchReadState.delivered_parseFromRingBuffer, hbatch,
      hscan.parseSingleBufferedFrames, hdeliv]
  · rw [hbatch]
    exact hsplit.contents
  · rw [hbatch, hdeliv, hsplit.known]

/-- A PING and the header of a DATA frame of 65535 bytes, in a buffer that they fill. -/
def pingThenTooLarge : RingBuffer where
  backend := .Vector
  buffer := [0, 0, 8, 6, 0, 0, 0, 0, 0, 1, 2, 3, 4, 5, 6, 7, 8, 0, 0xFF, 0xFF, 0, 0, 0, 0, 0, 1]
  readIndex := 0
  writeIndex := 0
  size := 26
  size_le := by decide
  readIndex_lt := by decide
  writeIndex_eq := by decide

/-- The PING is taken off the buffer and never returned. -/
theorem pingThenTooLarge_loses : ¬ LosesNothing pingThenTooLarge kDefaultMaxFrameSize 16 := by
  apply not_losesNothing
  refine ⟨[[0, 0, 8, 6, 0, 0, 0, 0, 0, 1, 2, 3, 4, 5, 6, 7, 8]],
    [0, 0xFF, 0xFF, 0, 0, 0, 0, 0, 1], by decide +kernel, ?_, ?_, by decide +kernel,
    by decide +kernel⟩
  · intro frame hmem
    obtain rfl := List.mem_singleton.1 hmem
    refine ⟨by decide +kernel, by decide +kernel, fun _ => ⟨.ping ?_, ?_⟩⟩
    · exact {
        header := { length := 8, type := .Ping }
        opaqueData := ⟨[1, 2, 3, 4, 5, 6, 7, 8], rfl⟩ }
    · decide +kernel
  · exact .tooLarge (by decide +kernel) (by decide +kernel)

end Galay.Http2
