import Galay.Http2.Outbound.Scheduler
import Galay.Lib.RoundRobin

/-!
# What a turn of the scheduler does

`H2PendingData.rest` are the bytes a stream has still to send; taking a piece from the front
drops it from them. `SendLaw` is what the two ways of making a frame have in common: both change
only the pending data and the flags. From it follows the effect of a whole turn
(`sendChunks_spec`), which makes the loops a deficit round robin in the sense of
`Galay.Lib.RoundRobin`.
-/

namespace Galay.Http2

open List
open Lib.RoundRobin

/-- What a DATA frame tells its stream: its bytes, and `none` for END_STREAM. -/
def Http2DataFrame.log (frame : Http2DataFrame) : List (Option UInt8) :=
  frame.data.map some ++ if frame.header.isEndStream then [none] else []

theorem Http2FrameBuilder.isEndStream_endFlags (header : Http2FrameHeader)
    (endStream endHeaders : Bool) (hflags : header.flags = endFlags endStream endHeaders) :
    header.isEndStream = endStream := by
  unfold Http2FrameHeader.isEndStream Http2FrameHeader.hasFlag
  rw [hflags]
  clear hflags
  revert endStream endHeaders
  decide

theorem Http2FrameBuilder.log_data (id : UInt32) (payload : Bytes) (endStream : Bool) :
    (data id payload endStream).log = payload.map some ++ if endStream then [none] else [] := by
  unfold Http2DataFrame.log
  rw [isEndStream_endFlags _ endStream false rfl]
  rfl

namespace H2PendingData

variable {pending : H2PendingData} {n : Nat}

variable (pending)

/-- The bytes that are still to be sent. -/
def rest : Bytes :=
  match pending.chunks with
  | [] => []
  | front :: chunks => front.drop pending.frontOffset ++ chunks.flatten

/-- The front chunk has something left. -/
def Normalized : Prop :=
  ∀ front ∈ pending.chunks.head?, pending.frontOffset < front.length

theorem normalizeChunks_rest (chunks : List Bytes) (frontOffset : Nat) (endStream : Bool) :
    rest ⟨(normalizeChunks chunks frontOffset).1, (normalizeChunks chunks frontOffset).2, endStream⟩ =
      rest ⟨chunks, frontOffset, endStream⟩ := by
  induction chunks generalizing frontOffset with
  | nil => rfl
  | cons front chunks ih =>
  rw [normalizeChunks]
  split
  · next h =>
    rw [ih 0]
    show rest ⟨chunks, 0, endStream⟩ = front.drop frontOffset ++ chunks.flatten
    rw [drop_eq_nil_of_le h]
    cases chunks with
    | nil => rfl
    | cons front chunks => rfl
  rfl

@[simp] theorem rest_normalizePending :
    pending.normalizePending.rest = pending.rest :=
  normalizeChunks_rest pending.chunks pending.frontOffset pending.endStream

theorem normalizeChunks_front (chunks : List Bytes) (frontOffset : Nat) :
    ∀ front ∈ (normalizeChunks chunks frontOffset).1.head?,
      (normalizeChunks chunks frontOffset).2 < front.length := by
  induction chunks generalizing frontOffset with
  | nil => exact fun front h => nomatch h
  | cons front chunks ih =>
  rw [normalizeChunks]
  split
  · exact ih 0
  next h =>
  intro front' hfront
  cases hfront
  exact Nat.lt_of_not_le h

theorem normalized_normalizePending : pending.normalizePending.Normalized :=
  normalizeChunks_front pending.chunks pending.frontOffset

variable {pending}

theorem Normalized.frontPendingSize_pos (H : pending.Normalized) (hne : pending.chunks ≠ []) :
    0 < pending.frontPendingSize := by
  obtain ⟨chunks, frontOffset, endStream⟩ := pending
  cases chunks with
  | nil => exact absurd rfl hne
  | cons front chunks =>
  have hlt : frontOffset < front.length := H front rfl
  exact Nat.sub_pos_of_lt hlt

theorem frontPendingSize_le (pending : H2PendingData) :
    pending.frontPendingSize ≤ pending.rest.length := by
  obtain ⟨chunks, frontOffset, endStream⟩ := pending
  cases chunks with
  | nil => exact Nat.zero_le _
  | cons front chunks =>
  show front.length - frontOffset ≤ (front.drop frontOffset ++ chunks.flatten).length
  rw [length_append, length_drop]
  omega

theorem Normalized.rest_eq_nil (H : pending.Normalized) : pending.rest = [] ↔ pending.chunks = [] := by
  constructor
  · intro hnil
    by_contra hne
    have hpos := H.frontPendingSize_pos hne
    have hle := pending.frontPendingSize_le
    rw [hnil] at hle
    exact Nat.lt_irrefl 0 (Nat.lt_of_lt_of_le hpos hle)
  intro hnil
  rw [rest, hnil]

theorem frontData_eq (hn : n ≤ pending.frontPendingSize) : pending.frontData n = pending.rest.take n := by
  obtain ⟨chunks, frontOffset, endStream⟩ := pending
  cases chunks with
  | nil =>
    show ([].drop frontOffset).take n = [].take n
    simp
  | cons front chunks =>
  have hlen : n ≤ (front.drop frontOffset).length := by
    rw [length_drop]
    exact hn
  exact (take_append_of_le_length hlen).symm

theorem rest_advance (hn : n ≤ pending.frontPendingSize) :
    (pending.advance n).rest = pending.rest.drop n := by
  rw [advance, rest_normalizePending]
  obtain ⟨chunks, frontOffset, endStream⟩ := pending
  cases chunks with
  | nil => exact List.drop_nil.symm
  | cons front chunks =>
  have hlen : n ≤ (front.drop frontOffset).length := by
    rw [length_drop]
    exact hn
  show front.drop (frontOffset + n) ++ chunks.flatten =
    (front.drop frontOffset ++ chunks.flatten).drop n
  rw [drop_append_of_le_length hlen, drop_drop]

theorem normalizeChunks_suffix (chunks : List Bytes) (frontOffset : Nat) :
    (normalizeChunks chunks frontOffset).1 <:+ chunks := by
  induction chunks generalizing frontOffset with
  | nil => exact suffix_refl _
  | cons front chunks ih =>
  rw [normalizeChunks]
  split
  · exact (ih 0).trans (suffix_cons front chunks)
  exact suffix_refl _

variable (pending)

theorem chunks_advance_suffix (n : Nat) :
    (pending.advance n).chunks <:+ pending.chunks :=
  normalizeChunks_suffix pending.chunks (pending.frontOffset + n)

@[simp] theorem endStream_advance (n : Nat) :
    (pending.advance n).endStream = pending.endStream := rfl

end H2PendingData

namespace H2StreamSendState

variable (stream : H2StreamSendState)

/-- The positive part of the window. -/
def window : Nat := stream.streamWindow.toInt.toNat

/-- What the stream may still send: its data, within its window. -/
def need : Nat := min stream.pending.rest.length stream.window

/-- What the stream sends in its first `k` turns when the connection window does not run out. -/
def share (config : H2SchedulerConfig) (k : Nat) (stream : H2StreamSendState) : Nat :=
  deficitShare stream.need stream.deficit (Http2OutboundScheduler.quantumFor stream config) k

theorem window_lt : stream.window < 2 ^ 31 := by
  have := stream.streamWindow.toInt_lt
  unfold window
  omega

theorem window_sub (h : n ≤ w.toInt.toNat) :
    (w - Int32.ofNat n).toInt.toNat = w.toInt.toNat - n := by
  have hlt := w.toInt_lt
  have hle := w.le_toInt
  have hn : (Int32.ofNat n).toInt = n := Int32.toInt_ofNat_of_lt (by omega)
  rw [Int32.toInt_sub, hn, Int.bmod_eq_of_le (by omega) (by omega)]
  omega

end H2StreamSendState

namespace Http2OutboundScheduler

open H2PendingData H2StreamSendState

variable {F : Type} {send : H2StreamSendState → Nat → F × H2StreamSendState}
  {maxFrameSize : Nat} {config : H2SchedulerConfig} {stream : H2StreamSendState}

/-- Making a frame counts its bytes as sent, and changes nothing else but the flags. -/
structure SendLaw (send : H2StreamSendState → Nat → F × H2StreamSendState) : Prop where
  chunks : ∀ s n, (send s n).2.pending.chunks = (s.pending.advance n).chunks
  frontOffset : ∀ s n, (send s n).2.pending.frontOffset = (s.pending.advance n).frontOffset
  weight : ∀ s n, (send s n).2.weight = s.weight
  streamId : ∀ s n, (send s n).2.streamId = s.streamId
  endStream : ∀ s n, (send s n).2.pending.endStream = true → s.pending.endStream = true

theorem markEnd_law (h : s' = markEnd s sendEnd) :
    s'.pending.chunks = s.pending.chunks ∧ s'.pending.frontOffset = s.pending.frontOffset ∧
      s'.weight = s.weight ∧ s'.streamId = s.streamId ∧
      (s'.pending.endStream = true → s.pending.endStream = true) := by
  subst h
  unfold markEnd
  split
  · exact ⟨rfl, rfl, rfl, rfl, fun h => nomatch h⟩
  exact ⟨rfl, rfl, rfl, rfl, id⟩

theorem sendFrame_law : SendLaw sendFrame where
  chunks _ _ := (markEnd_law rfl).1
  frontOffset _ _ := (markEnd_law rfl).2.1
  weight _ _ := (markEnd_law rfl).2.2.1
  streamId _ _ := (markEnd_law rfl).2.2.2.1
  endStream _ _ := (markEnd_law rfl).2.2.2.2

theorem sendBytes_law : SendLaw sendBytes where
  chunks _ _ := (markEnd_law rfl).1
  frontOffset _ _ := (markEnd_law rfl).2.1
  weight _ _ := (markEnd_law rfl).2.2.1
  streamId _ _ := (markEnd_law rfl).2.2.2.1
  endStream _ _ := (markEnd_law rfl).2.2.2.2

theorem SendLaw.rest_eq (H : SendLaw send) (hn : n ≤ stream.pending.frontPendingSize) :
    (send stream n).2.pending.rest = stream.pending.rest.drop n := by
  rw [← rest_advance hn]
  simp only [rest, H.chunks, H.frontOffset]

theorem SendLaw.normalized (H : SendLaw send) (n : Nat) : (send stream n).2.pending.Normalized := by
  have hnorm := normalized_normalizePending
    { stream.pending with frontOffset := stream.pending.frontOffset + n }
  simp only [Normalized, H.chunks, H.frontOffset]
  exact hnorm

/-- The stream after one frame. -/
def afterChunk (send : H2StreamSendState → Nat → F × H2StreamSendState)
    (stream : H2StreamSendState) (chunk : Nat) : H2StreamSendState :=
  { (send stream chunk).2 with
    streamWindow := stream.streamWindow - Int32.ofNat chunk
    deficit := stream.deficit - chunk }

/-- A stream can send when it has data, window and deficit, and the connection has window. -/
def CanSend (connWindow : Nat) (stream : H2StreamSendState) : Prop :=
  stream.pending.chunks ≠ [] ∧ stream.streamWindow.toInt > 0 ∧ connWindow > 0 ∧ stream.deficit > 0

variable {conn : Nat}

theorem chunkSize_pos (hnorm : stream.pending.Normalized) (hmax : 0 < maxFrameSize)
    (h : CanSend conn stream) : 0 < chunkSize maxFrameSize conn stream := by
  obtain ⟨hne, hwin, hconn, hdef⟩ := h
  have hfront := hnorm.frontPendingSize_pos hne
  unfold chunkSize
  omega

theorem chunkSize_le (maxFrameSize conn : Nat) (stream : H2StreamSendState) :
    chunkSize maxFrameSize conn stream ≤ conn ∧
      chunkSize maxFrameSize conn stream ≤ stream.streamWindow.toInt.toNat ∧
      chunkSize maxFrameSize conn stream ≤ stream.pending.frontPendingSize ∧
      chunkSize maxFrameSize conn stream ≤ stream.deficit := by
  unfold chunkSize
  omega

theorem sendChunks_of_canSend (hnorm : stream.pending.Normalized) (hmax : 0 < maxFrameSize)
    (h : CanSend conn stream) (rounds : Nat) :
    sendChunks send maxFrameSize (rounds + 1) conn stream =
      let chunk := chunkSize maxFrameSize conn stream
      let next := sendChunks send maxFrameSize rounds (conn - chunk) (afterChunk send stream chunk)
      (H2Selection.append ⟨[(send stream chunk).1], chunk⟩ next.1, next.2.1, next.2.2) := by
  have hpos := chunkSize_pos hnorm hmax h
  have hcan : stream.pending.chunks ≠ [] ∧ stream.streamWindow.toInt > 0 ∧ conn > 0 ∧
      stream.deficit > 0 := h
  rw [sendChunks, if_pos hcan]
  simp only
  rw [if_neg (by omega)]
  rfl

theorem sendChunks_of_not_canSend (h : ¬ CanSend conn stream) (rounds : Nat) :
    sendChunks send maxFrameSize rounds conn stream = ({}, conn, stream) := by
  cases rounds with
  | zero => rfl
  | succ rounds =>
  rw [sendChunks]
  exact if_neg h

/-- What a turn serves: as much as the connection, the stream and its deficit allow. -/
def served (conn : Nat) (stream : H2StreamSendState) : Nat := min conn (min stream.need stream.deficit)

theorem canSend_iff (hnorm : stream.pending.Normalized) :
    CanSend conn stream ↔ 0 < served conn stream := by
  have hrest : 0 < stream.pending.rest.length ↔ stream.pending.chunks ≠ [] := by
    rw [length_pos_iff, Ne, hnorm.rest_eq_nil]
  unfold CanSend served need window
  rw [← hrest]
  omega

/-- `s'` is `s` after `m` bytes of it went out. -/
structure Advanced (m : Nat) (s s' : H2StreamSendState) : Prop where
  rest_eq : s'.pending.rest = s.pending.rest.drop m
  window_eq : s'.window = s.window - m
  weight_eq : s'.weight = s.weight
  streamId_eq : s'.streamId = s.streamId
  chunks_suffix : s'.pending.chunks <:+ s.pending.chunks
  endStream_of : s'.pending.endStream = true → s.pending.endStream = true

theorem Advanced.refl (s : H2StreamSendState) : Advanced 0 s s :=
  ⟨rfl, rfl, rfl, rfl, suffix_refl _, id⟩

theorem Advanced.trans (h : Advanced m s s') (h' : Advanced n s' s'') : Advanced (m + n) s s'' where
  rest_eq := by rw [h'.rest_eq, h.rest_eq, drop_drop]
  window_eq := by rw [h'.window_eq, h.window_eq, Nat.sub_sub]
  weight_eq := h'.weight_eq.trans h.weight_eq
  streamId_eq := h'.streamId_eq.trans h.streamId_eq
  chunks_suffix := h'.chunks_suffix.trans h.chunks_suffix
  endStream_of := h.endStream_of ∘ h'.endStream_of

theorem Advanced.need_eq (h : Advanced m s s') : s'.need = s.need - m := by
  unfold need
  rw [h.rest_eq, h.window_eq, length_drop]
  omega

theorem SendLaw.advanced (H : SendLaw send) (hfront : n ≤ stream.pending.frontPendingSize)
    (hwin : n ≤ stream.streamWindow.toInt.toNat) : Advanced n stream (afterChunk send stream n) where
  rest_eq := H.rest_eq hfront
  window_eq := window_sub hwin
  weight_eq := H.weight stream n
  streamId_eq := H.streamId stream n
  chunks_suffix := by
    show (send stream n).2.pending.chunks <:+ _
    rw [H.chunks]
    exact chunks_advance_suffix stream.pending n
  endStream_of := H.endStream stream n

theorem served_afterChunk (H : SendLaw send) (maxFrameSize conn : Nat)
    (stream : H2StreamSendState) :
    served conn stream = chunkSize maxFrameSize conn stream +
      served (conn - chunkSize maxFrameSize conn stream)
        (afterChunk send stream (chunkSize maxFrameSize conn stream)) := by
  obtain ⟨hconn, hwin, hfront, hdef⟩ := chunkSize_le maxFrameSize conn stream
  have hneed := (H.advanced hfront hwin).need_eq
  have hle : chunkSize maxFrameSize conn stream ≤ stream.need :=
    Nat.le_min.2 ⟨hfront.trans stream.pending.frontPendingSize_le, hwin⟩
  unfold served
  show _ = _ + min _ (min (need _) (stream.deficit - _))
  rw [hneed]
  omega

/-- What the turn of a stream leaves. -/
structure TurnSpec (conn m : Nat) (s : H2StreamSendState)
    (r : H2Selection F × Nat × H2StreamSendState) : Prop where
  total_eq : r.1.totalDataBytes = m
  frames_nil : r.1.frames = [] ↔ m = 0
  conn_eq : r.2.1 = conn - m
  normalized : r.2.2.pending.Normalized
  deficit_eq : r.2.2.deficit = s.deficit - m
  advanced : Advanced m s r.2.2

/-- The loop over the frames of a stream serves as much as it may. -/
theorem sendChunks_spec (H : SendLaw send) (hmax : 0 < maxFrameSize)
    (hnorm : stream.pending.Normalized) (hrounds : conn ≤ rounds) :
    TurnSpec conn (served conn stream) stream (sendChunks send maxFrameSize rounds conn stream) := by
  induction rounds generalizing conn stream with
  | zero =>
    have hzero : served conn stream = 0 := by
      unfold served
      omega
    rw [hzero]
    exact ⟨rfl, by simp [sendChunks], rfl, hnorm, rfl, .refl _⟩
  | succ rounds ih =>
  by_cases hcan : CanSend conn stream
  · have hpos := chunkSize_pos hnorm hmax hcan
    obtain ⟨hconn, hwin, hfront, hdef⟩ := chunkSize_le maxFrameSize conn stream
    have hsum := served_afterChunk H maxFrameSize conn stream
    have hnorm' : (afterChunk send stream (chunkSize maxFrameSize conn stream)).pending.Normalized :=
      H.normalized _
    have hnext := ih hnorm' (show conn - chunkSize maxFrameSize conn stream ≤ rounds by omega)
    rw [sendChunks_of_canSend hnorm hmax hcan, hsum]
    exact {
      total_eq := congrArg (chunkSize maxFrameSize conn stream + ·) hnext.total_eq
      frames_nil := by
        simp only [H2Selection.append, cons_append, reduceCtorEq, false_iff]
        omega
      conn_eq := hnext.conn_eq.trans (Nat.sub_sub ..)
      normalized := hnext.normalized
      deficit_eq := hnext.deficit_eq.trans (Nat.sub_sub ..)
      advanced := (H.advanced hfront hwin).trans hnext.advanced }
  have hzero : served conn stream = 0 := by
    rw [canSend_iff hnorm] at hcan
    omega
  rw [sendChunks_of_not_canSend hcan, hzero]
  exact ⟨rfl, by simp, rfl, hnorm, rfl, .refl _⟩

/-! ## The turn of a stream in a round -/

theorem quantumFor_le (stream : H2StreamSendState) (config : H2SchedulerConfig) :
    quantumFor stream config ≤ kSizeMax := by
  unfold quantumFor
  generalize (if config.baseQuantum = 0 then 1 else config.baseQuantum) = base
  generalize (if stream.weight = 0 then 1 else stream.weight.toNat) = weight
  simp only
  split
  · exact Nat.le_refl _
  next h => exact Nat.mul_le_of_le_div _ _ _ (Nat.le_of_not_lt h)

theorem quantumFor_pos (stream : H2StreamSendState) (config : H2SchedulerConfig) :
    0 < quantumFor stream config := by
  have hweight : 0 < if stream.weight = 0 then 1 else stream.weight.toNat := by
    split
    · exact Nat.one_pos
    next h => exact Nat.pos_of_ne_zero fun hz => h (UInt8.toNat_inj.1 hz)
  have hbase : 0 < if config.baseQuantum = 0 then 1 else config.baseQuantum := by
    split <;> omega
  unfold quantumFor
  generalize (if config.baseQuantum = 0 then 1 else config.baseQuantum) = base at hbase
  generalize (if stream.weight = 0 then 1 else stream.weight.toNat) = weight at hweight
  simp only
  split
  · decide
  exact Nat.mul_pos hbase hweight

/-- The turn of a stream: nothing when it has no data or no window. -/
def takeTurn (send : H2StreamSendState → Nat → F × H2StreamSendState) (maxFrameSize : Nat)
    (config : H2SchedulerConfig) (conn : Nat) (stream : H2StreamSendState) :
    H2Selection F × Nat × H2StreamSendState :=
  if stream.need = 0 then ({}, conn, { stream.normalized with queued := false })
  else sendChunks send maxFrameSize conn conn (credit config stream.normalized)

theorem need_eq_zero_iff : stream.need = 0 ↔
    stream.normalized.pending.chunks = [] ∨ stream.normalized.streamWindow.toInt ≤ 0 := by
  have hnorm := normalized_normalizePending stream.pending
  rw [show stream.normalized.pending.chunks = [] ↔ stream.pending.rest = [] by
    rw [← rest_normalizePending, hnorm.rest_eq_nil]
    rfl]
  unfold need window
  rw [← length_eq_zero_iff]
  show _ ↔ _ ∨ stream.streamWindow.toInt ≤ 0
  omega

theorem sendRound_cons (hconn : 0 < conn) (streams : List H2StreamSendState) :
    sendRound send maxFrameSize config conn (stream :: streams) =
      let t := takeTurn send maxFrameSize config conn stream
      if t.2.1 = 0 then (t.1, t.2.1, t.2.2 :: streams)
      else
        let r := sendRound send maxFrameSize config t.2.1 streams
        (t.1.append r.1, r.2.1, t.2.2 :: r.2.2) := by
  rw [sendRound, takeTurn]
  by_cases hneed : stream.need = 0
  · rw [if_pos hneed, if_pos (need_eq_zero_iff.1 hneed)]
    simp only
    rw [if_neg (by omega)]
    simp [H2Selection.append]
  rw [if_neg hneed, if_neg fun h => hneed (need_eq_zero_iff.2 h)]

theorem share_one (config : H2SchedulerConfig) (stream : H2StreamSendState) :
    stream.share config 1 = min stream.need (stream.deficit + quantumFor stream config) := by
  simp [share, deficitShare]

theorem share_one_pos (hneed : stream.need ≠ 0) : 0 < stream.share config 1 := by
  have := quantumFor_pos stream config
  rw [share_one]
  omega

theorem share_of_need_eq_zero (hneed : stream.need = 0) (k : Nat) : stream.share config k = 0 := by
  rw [share, hneed, deficitShare_zero_need]

theorem served_credit (conn : Nat) :
    served conn (credit config stream.normalized) = min conn (stream.share config 1) := by
  have hq := quantumFor_le stream config
  have hwin := stream.window_lt
  have hneed : stream.need ≤ stream.window := Nat.min_le_right _ _
  have hcredit : (credit config stream.normalized).need = stream.need := by
    unfold need
    show min (stream.pending.normalizePending).rest.length stream.window = _
    rw [rest_normalizePending]
  rw [served, hcredit, share_one]
  show min conn (min _ (min (kSizeMax - quantumFor stream config) stream.deficit +
    quantumFor stream config)) = _
  have hmax : 2 ^ 31 ≤ kSizeMax := by decide
  omega

variable (stream)

theorem share_zero : stream.share config 0 = 0 := rfl

theorem share_one_le (k : Nat) (stream : H2StreamSendState) :
    stream.share config 1 ≤ stream.share config (k + 1) := deficitShare_one_le ..

theorem share_le_need (k : Nat) (stream : H2StreamSendState) :
    stream.share config k ≤ stream.need := deficitShare_le ..

theorem need_le_rest : stream.need ≤ stream.pending.rest.length :=
  Nat.min_le_left _ _

theorem need_le_window : stream.need ≤ stream.window :=
  Nat.min_le_right _ _

variable {stream}

/-- The turn of a stream serves its share, cut at the connection window. -/
theorem takeTurn_spec (stream : H2StreamSendState) (config : H2SchedulerConfig) (H : SendLaw send)
    (hmax : 0 < maxFrameSize) (conn : Nat) :
    let r := takeTurn send maxFrameSize config conn stream
    let m := min conn (stream.share config 1)
    r.1.totalDataBytes = m ∧ (r.1.frames = [] ↔ m = 0) ∧ r.2.1 = conn - m ∧
      r.2.2.pending.Normalized ∧ Advanced m stream r.2.2 ∧
      (stream.need ≠ 0 → r.2.2.deficit =
        min (kSizeMax - quantumFor stream config) stream.deficit + quantumFor stream config - m) := by
  have hnorm : ∀ queued deficit, Advanced 0 stream { stream.normalized with queued, deficit } :=
    fun _ _ => ⟨rest_normalizePending _, rfl, rfl, rfl, normalizeChunks_suffix _ _, id⟩
  unfold takeTurn
  split
  · next hneed =>
    rw [share_of_need_eq_zero hneed, Nat.min_zero]
    exact ⟨rfl, by simp, rfl, normalized_normalizePending _, hnorm _ _, fun h => absurd hneed h⟩
  next hneed =>
  have hspec := sendChunks_spec H hmax (show (credit config stream.normalized).pending.Normalized
    from normalized_normalizePending _) (Nat.le_refl conn)
  rw [served_credit] at hspec
  have hadv := (hnorm true (credit config stream.normalized).deficit).trans hspec.advanced
  rw [Nat.zero_add] at hadv
  exact ⟨hspec.total_eq, hspec.frames_nil, hspec.conn_eq, hspec.normalized, hadv,
    fun _ => hspec.deficit_eq⟩

/-- A turn that the connection window does not cut is a turn of the round robin. -/
theorem takeTurn_turn (H : SendLaw send) (hmax : 0 < maxFrameSize)
    (hconn : stream.share config 1 ≤ conn) :
    Turn (share config) need stream (takeTurn send maxFrameSize config conn stream).2.2 := by
  obtain ⟨-, -, -, -, hadv, hdef⟩ := takeTurn_spec stream config H hmax conn
  rw [Nat.min_eq_right hconn] at hadv hdef
  have hneed := hadv.need_eq
  have hle : stream.share config 1 ≤ stream.need := deficitShare_le ..
  have hq : quantumFor (takeTurn send maxFrameSize config conn stream).2.2 config =
      quantumFor stream config := by
    unfold quantumFor
    rw [hadv.weight_eq]
  refine ⟨fun k => ?_, by omega⟩
  have hsucc : stream.share config (k + 1) = stream.share config 1 +
      deficitShare (stream.need - stream.share config 1)
        (stream.deficit + quantumFor stream config - stream.share config 1)
        (quantumFor stream config) k := deficitShare_succ rfl k
  have hafter : (takeTurn send maxFrameSize config conn stream).2.2.share config k =
      deficitShare (stream.need - stream.share config 1)
        (takeTurn send maxFrameSize config conn stream).2.2.deficit
        (quantumFor stream config) k := by
    rw [share, hneed, hq]
  rw [hsucc, hafter]
  congr 1
  -- with something left to serve the deficit was the limit, so the addition did not saturate
  by_cases hrest : stream.need - stream.share config 1 = 0
  · rw [hrest, deficitShare_zero_need, deficitShare_zero_need]
  have hwin := stream.window_lt
  have hwin' : stream.need ≤ stream.window := Nat.min_le_right _ _
  have hsize : 2 ^ 31 ≤ kSizeMax := by decide
  have hone := share_one config stream
  rw [hdef (by omega)]
  congr 1
  omega

/-! ## A round -/

/-- `s'` is `s` after a turn that the connection window did not cut. -/
structure Turned (config : H2SchedulerConfig) (s s' : H2StreamSendState) : Prop where
  turn : Turn (share config) need s s'
  advanced : Advanced (s.share config 1) s s'

theorem takeTurn_turned (H : SendLaw send) (hmax : 0 < maxFrameSize)
    (hconn : stream.share config 1 ≤ conn) :
    Turned config stream (takeTurn send maxFrameSize config conn stream).2.2 := by
  obtain ⟨-, -, -, -, hadv, -⟩ := takeTurn_spec stream config H hmax conn
  rw [Nat.min_eq_right hconn] at hadv
  exact ⟨takeTurn_turn H hmax hconn, hadv⟩

theorem need_of_share_one (h : stream.share config 1 = 0) : stream.need = 0 := by
  by_contra hneed
  exact Nat.lt_irrefl 0 (h ▸ share_one_pos hneed)

theorem Turned.refl (hneed : stream.need = 0) : Turned config stream stream := by
  have hshare := @share_of_need_eq_zero config _ hneed
  refine ⟨⟨fun k => ?_, ?_⟩, ?_⟩
  · rw [hshare, hshare, hshare]
  · rw [hshare, hneed]
  rw [hshare]
  exact .refl _

/-- A round serves every stream its share, cut at the connection window. -/
theorem sendRound_spec (H : SendLaw send) (hmax : 0 < maxFrameSize) (hconn : 0 < conn)
    (streams : List H2StreamSendState) :
    let r := sendRound send maxFrameSize config conn streams
    let total := (streams.map (share config 1)).sum
    r.1.totalDataBytes = min conn total ∧ (r.1.frames = [] ↔ total = 0) ∧ r.2.1 = conn - total ∧
      (total ≤ conn → List.Forall₂ (Turned config) streams r.2.2) := by
  induction streams generalizing conn with
  | nil => exact ⟨(Nat.min_zero conn).symm, by simp [sendRound], rfl, fun _ => .nil⟩
  | cons stream streams ih =>
  obtain ⟨htotal, hframes, hleft, -⟩ := takeTurn_spec stream config H hmax conn
  rw [sendRound_cons hconn]
  simp only [map_cons, sum_cons]
  split
  · next hzero =>
    rw [hleft] at hzero
    refine ⟨by rw [htotal]; omega, ?_, by rw [hleft]; omega, fun hle => ?_⟩
    · rw [hframes]
      omega
    -- the streams that got no turn had nothing to send
    refine .cons (takeTurn_turned H hmax (by omega)) (List.forall₂_same.2 fun s hs => ?_)
    have hs : s.share config 1 ≤ (streams.map (share config 1)).sum :=
      le_sum_of_mem (mem_map_of_mem hs)
    have hzero : s.share config 1 = 0 := by omega
    exact .refl (need_of_share_one hzero)
  next hpos =>
  rw [hleft] at hpos
  have hcut : stream.share config 1 < conn := by omega
  rw [Nat.min_eq_right (Nat.le_of_lt hcut)] at htotal hframes hleft
  obtain ⟨itotal, iframes, ileft, iturned⟩ :=
    ih (show 0 < (takeTurn send maxFrameSize config conn stream).2.1 by omega)
  rw [hleft] at itotal iframes ileft iturned
  rw [hleft]
  refine ⟨?_, ?_, by rw [ileft]; omega, fun hle => ?_⟩
  · show _ + _ = _
    rw [htotal, itotal]
    omega
  · show _ ++ _ = [] ↔ _
    rw [append_eq_nil_iff, hframes, iframes]
    omega
  exact .cons (takeTurn_turned H hmax (Nat.le_of_lt hcut)) (iturned (by omega))

/-! ## Relations kept by all rounds -/

/-- A preorder on streams that holds across everything the loops do to a stream. -/
structure StepRel (send : H2StreamSendState → Nat → F × H2StreamSendState)
    (R : H2StreamSendState → H2StreamSendState → Prop) : Prop where
  refl : ∀ s, R s s
  trans : ∀ {s s' s''}, R s s' → R s' s'' → R s s''
  idle : ∀ s queued deficit, R s { s.normalized with queued, deficit }
  chunk : ∀ {s n}, s.pending.Normalized → 0 < n → n ≤ s.pending.frontPendingSize →
    n ≤ s.streamWindow.toInt.toNat → R s (afterChunk send s n)

section StepRel

variable {R : H2StreamSendState → H2StreamSendState → Prop}

section

variable (HR : StepRel send R) (H : SendLaw send) (hmax : 0 < maxFrameSize)
include HR H hmax

theorem StepRel.sendChunks (hnorm : stream.pending.Normalized) :
    R stream (sendChunks send maxFrameSize rounds conn stream).2.2 := by
  induction rounds generalizing conn stream with
  | zero => exact HR.refl _
  | succ rounds ih =>
  by_cases hcan : CanSend conn stream
  · have hpos := chunkSize_pos hnorm hmax hcan
    obtain ⟨-, hwin, hfront, -⟩ := chunkSize_le maxFrameSize conn stream
    rw [sendChunks_of_canSend hnorm hmax hcan]
    refine HR.trans (HR.chunk hnorm hpos hfront hwin) (ih ?_)
    exact H.normalized _
  rw [sendChunks_of_not_canSend hcan]
  exact HR.refl _

theorem StepRel.takeTurn : R stream (takeTurn send maxFrameSize config conn stream).2.2 := by
  unfold Http2OutboundScheduler.takeTurn
  split
  · exact HR.idle stream false stream.deficit
  refine HR.trans (HR.idle stream true (credit config stream.normalized).deficit) ?_
  exact HR.sendChunks H hmax (normalized_normalizePending stream.pending)

theorem StepRel.sendRound (hconn : 0 < conn) (streams : List H2StreamSendState) :
    List.Forall₂ R streams (sendRound send maxFrameSize config conn streams).2.2 := by
  induction streams generalizing conn with
  | nil => exact .nil
  | cons stream streams ih =>
  rw [sendRound_cons hconn]
  simp only
  split
  · exact .cons (HR.takeTurn H hmax) (List.forall₂_same.2 fun s _ => HR.refl s)
  next hpos => exact .cons (HR.takeTurn H hmax) (ih (Nat.pos_of_ne_zero hpos))

end

theorem StepRel.forall₂_trans (HR : StepRel send R)
    (h : List.Forall₂ R l l') (h' : List.Forall₂ R l' l'') : List.Forall₂ R l l'' := by
  induction h generalizing l'' with
  | nil => exact h'
  | cons hhead _ ih =>
  cases h' with
  | cons hhead' htail' => exact .cons (HR.trans hhead hhead') (ih htail')

theorem StepRel.sendRounds (HR : StepRel send R) (H : SendLaw send) (hmax : 0 < maxFrameSize)
    (rounds conn : Nat) (streams : List H2StreamSendState) :
    List.Forall₂ R streams (sendRounds send maxFrameSize config rounds conn streams).2 := by
  induction rounds generalizing conn streams with
  | zero => exact List.forall₂_same.2 fun s _ => HR.refl s
  | succ rounds ih =>
  rw [Http2OutboundScheduler.sendRounds]
  split
  · next hconn =>
    have hround : List.Forall₂ R streams
        (Http2OutboundScheduler.sendRound send maxFrameSize config conn streams).2.2 :=
      HR.sendRound H hmax hconn streams
    simp only
    split
    · exact hround
    exact HR.forall₂_trans hround (ih _ _)
  exact List.forall₂_same.2 fun s _ => HR.refl s

end StepRel

theorem stepRel_advanced (H : SendLaw send) :
    StepRel send fun s s' => ∃ m, m ≤ s.need ∧ Advanced m s s' where
  refl s := ⟨0, Nat.zero_le _, .refl s⟩
  trans := by
    rintro s s' s'' ⟨m, hm, h⟩ ⟨n, hn, h'⟩
    rw [h.need_eq] at hn
    exact ⟨m + n, by omega, h.trans h'⟩
  idle _ _ _ := ⟨0, Nat.zero_le _, rest_normalizePending _, rfl, rfl, rfl,
    normalizeChunks_suffix _ _, id⟩
  chunk {s _} _ _ hfront hwin := ⟨_, Nat.le_min.2 ⟨hfront.trans s.pending.frontPendingSize_le, hwin⟩,
    H.advanced hfront hwin⟩

theorem sum_split (f : H2StreamSendState → Nat) :
    ((pre ++ s :: post).map f).sum = (pre.map f).sum + f s + (post.map f).sum := by
  rw [map_append, sum_append, map_cons, sum_cons, Nat.add_assoc]

/-! ## The first loop -/

theorem takeEndStream_advanced (s : H2StreamSendState) : Advanced 0 s (takeEndStream s) := by
  unfold takeEndStream
  simp only
  split
  · exact ⟨rest_normalizePending _, rfl, rfl, rfl, normalizeChunks_suffix _ _, fun h => nomatch h⟩
  exact ⟨rest_normalizePending _, rfl, rfl, rfl, normalizeChunks_suffix _ _, id⟩

theorem share_takeEndStream (k : Nat) (s : H2StreamSendState) :
    (takeEndStream s).share config k = s.share config k := by
  have hadv := takeEndStream_advanced s
  have hdeficit : (takeEndStream s).deficit = s.deficit := by
    unfold takeEndStream
    simp only
    split <;> rfl
  unfold share quantumFor
  rw [hadv.need_eq, hadv.weight_eq, hdeficit, Nat.sub_zero]

end Http2OutboundScheduler

end Galay.Http2
