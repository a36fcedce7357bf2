import Galay.Http2.FrameCodec
import Galay.Http2.Outbound.SchedulerLemmas

/-!
# Frames and bytes of the scheduler

`pickSendableBytes` writes what `pickSendableFrames` returns as frames. Both take the same data at
the same time; they differ in END_STREAM alone. The first looks at the chunks before the sent ones
are dropped, so it misses the end of a stream whose last chunk is empty (`EndsEmpty`), and that
end is then sent by a later call. `pickSendable_agree_iff` says that the two agree exactly when no
such stream gets to its end.
-/

namespace Galay.Http2

open List
open Lib.RoundRobin

/-! ## What a receiver reads -/

/-- The log of the frame if it belongs to the stream; the wire has 31 bits of its identifier. -/
def Http2DataFrame.events (streamId : UInt32) (frame : Http2DataFrame) : List (Option UInt8) :=
  if frame.header.streamId &&& 0x7FFFFFFF = streamId then frame.log else []

def Http2Frame.events (streamId : UInt32) : Http2Frame → List (Option UInt8)
  | .data frame => frame.events streamId
  | _ => []

/-- The frames in a byte string, until one does not parse. -/
def wireFrames : (rounds : Nat) → Bytes → List Http2Frame
  | 0, _ => []
  | rounds + 1, bytes =>
    match Http2FrameCodec.decode bytes with
    | .error _ => []
    | .ok frame =>
      frame :: wireFrames rounds
        (bytes.drop (kHttp2FrameHeaderLength + frame.header.length.toNat))

theorem wireFrames_nil (rounds : Nat) : wireFrames rounds [] = [] := by
  cases rounds <;> rfl

/-- Every frame has a header, so there are no more frames than bytes. -/
def bytesEvents (streamId : UInt32) (bytes : Bytes) : List (Option UInt8) :=
  (wireFrames bytes.length bytes).flatMap (Http2Frame.events streamId)

/-- The same streams after, the same events on every stream and the same total. -/
structure SameSelection {σ : Type} (a : H2Selection Http2DataFrame × σ) (b : H2Selection Bytes × σ) :
    Prop where
  after_eq : a.2 = b.2
  events_eq : ∀ streamId, a.1.frames.flatMap (Http2DataFrame.events streamId) =
    b.1.frames.flatMap (bytesEvents streamId)
  total_eq : a.1.totalDataBytes = b.1.totalDataBytes

theorem SameSelection.append {a : H2Selection Http2DataFrame × σ}
    {b : H2Selection Bytes × σ} {a' : H2Selection Http2DataFrame × τ} {b' : H2Selection Bytes × τ}
    (h : SameSelection a b) (h' : SameSelection a' b') :
    SameSelection (a.1.append a'.1, a'.2) (b.1.append b'.1, b'.2) where
  after_eq := h'.after_eq
  events_eq streamId := by
    simp only [H2Selection.append, flatMap_append]
    rw [h.events_eq streamId, h'.events_eq streamId]
  total_eq := by
    show a.1.totalDataBytes + a'.1.totalDataBytes = b.1.totalDataBytes + b'.1.totalDataBytes
    rw [h.total_eq, h'.total_eq]

theorem SameSelection.empty (x : σ) : SameSelection ({}, x) ({}, x) :=
  ⟨rfl, fun _ => rfl, rfl⟩

namespace Http2FrameBuilder

variable {payload : Bytes} {rounds : Nat}

theorem mask_mask (id : UInt32) : id &&& 0x7FFFFFFF &&& 0x7FFFFFFF = id &&& 0x7FFFFFFF := by
  rw [UInt32.and_assoc, UInt32.and_self]

theorem isPadded_endFlags (header : Http2FrameHeader) (endStream endHeaders : Bool)
    (hflags : header.flags = endFlags endStream endHeaders) : header.isPadded = false := by
  unfold Http2FrameHeader.isPadded Http2FrameHeader.hasFlag
  rw [hflags]
  clear hflags
  revert endStream endHeaders
  decide

theorem events_data (streamId id : UInt32) (payload : Bytes) (endStream : Bool) :
    (data id payload endStream).events streamId =
      if id &&& 0x7FFFFFFF = streamId then payload.map some ++ if endStream then [none] else []
      else [] := by
  unfold Http2DataFrame.events
  rw [log_data]
  rfl

/-- A DATA frame that was written reads as that frame, and what follows it is read next. -/
theorem wireFrames_build (id : UInt32) (endStream : Bool) (hlen : payload.length < 2 ^ 24)
    (rest : Bytes) (streamId : UInt32) :
    (wireFrames (rounds + 1) (buildH2FrameBytes .Data (endFlags endStream false) id payload ++
      rest)).flatMap (Http2Frame.events streamId) =
      (data id payload endStream).events streamId ++
        (wireFrames rounds rest).flatMap (Http2Frame.events streamId) := by
  let header : Http2FrameHeader :=
    { type := .Data, streamId := id &&& 0x7FFFFFFF, flags := endFlags endStream false }
  have hbuild : buildH2FrameBytes .Data (endFlags endStream false) id payload =
      header.frameBytes payload := by
    unfold buildH2FrameBytes Http2FrameHeader.frameBytes Http2FrameHeader.serialize
    rw [mask_mask]
  have hid : header.streamId.toNat < 2 ^ 31 := by
    rw [Lib.toNat_and_31]
    exact Nat.mod_lt _ (by decide)
  have hdecode : Http2FrameCodec.decode (header.frameBytes payload ++ rest) = _ :=
    Http2FrameCodec.decode_frameBytes rfl hid hlen rest
  have hparse : Http2FrameParser.parsePayload
      { header with length := UInt32.ofNat payload.length } payload =
      .ok (.data ⟨{ header with length := UInt32.ofNat payload.length }, payload, 0⟩) := by
    show (Http2DataFrame.parsePayload _ payload).map Http2Frame.data = _
    unfold Http2DataFrame.parsePayload
    rw [isPadded_endFlags _ endStream false rfl]
    rfl
  rw [hparse] at hdecode
  have hlength : (UInt32.ofNat payload.length).toNat = payload.length :=
    UInt32.toNat_ofNat_of_lt' (Nat.lt_trans hlen (by decide))
  have hdrop : (header.frameBytes payload ++ rest).drop (9 + payload.length) = rest := by
    refine drop_left' ?_
    unfold Http2FrameHeader.frameBytes
    rw [length_append, Http2FrameHeader.length_serialize]
  rw [hbuild, wireFrames, hdecode]
  simp only [Http2Frame.header, hlength, kHttp2FrameHeaderLength, hdrop, flatMap_cons]
  rw [events_data]
  congr 1
  show Http2DataFrame.events _ _ = _
  unfold Http2DataFrame.events Http2DataFrame.log
  rw [isEndStream_endFlags _ endStream false rfl]
  show (if id &&& 0x7FFFFFFF &&& 0x7FFFFFFF = streamId then _ else _) = _
  rw [mask_mask]

theorem length_build (type : Http2FrameType) (flags : UInt8) (id : UInt32) (payload : Bytes) :
    (buildH2FrameBytes type flags id payload).length = 9 + payload.length := by
  rw [buildH2FrameBytes, length_append, Http2FrameHeader.length_serialize]

theorem events_split (streamId id : UInt32) (payload : Bytes) (n : Nat) (endStream : Bool)
    (hlt : n < payload.length) :
    (data id payload endStream).events streamId =
      (data id (payload.take n) (endStream && n = payload.length)).events streamId ++
        (data id (payload.drop n) endStream).events streamId := by
  have hend : (endStream && decide (n = payload.length)) = false := by
    rw [decide_eq_false (Nat.ne_of_lt hlt), Bool.and_false]
  rw [hend, events_data, events_data, events_data]
  split
  · rw [if_neg Bool.false_ne_true, append_nil, ← append_assoc, ← map_append, take_append_drop]
  rfl

theorem wireFrames_dataBytesLoop (streamId id : UInt32) (endStream : Bool)
    (hne : payload ≠ []) (hloop : payload.length ≤ loop)
    (hrounds : (dataBytesLoop id endStream loop payload).length ≤ rounds) :
    (wireFrames rounds (dataBytesLoop id endStream loop payload)).flatMap
      (Http2Frame.events streamId) = (data id payload endStream).events streamId := by
  have hpos := length_pos_of_ne_nil hne
  induction loop generalizing payload rounds with
  | zero => omega
  | succ loop ih =>
  have hmax : kDefaultMaxFrameSize.toNat = 16384 := rfl
  rw [dataBytesLoop, if_neg (Nat.pos_iff_ne_zero.1 hpos)] at hrounds ⊢
  simp only [length_append, length_build, length_take] at hrounds ⊢
  obtain ⟨rounds, rfl⟩ : ∃ r, rounds = r + 1 := ⟨rounds - 1, by omega⟩
  rw [wireFrames_build id _ (by rw [length_take]; omega)]
  rcases Nat.lt_or_ge kDefaultMaxFrameSize.toNat payload.length with hlong | hshort
  · rw [Nat.min_eq_right (Nat.le_of_lt hlong)] at hrounds ⊢
    have hdrop : 0 < (payload.drop kDefaultMaxFrameSize.toNat).length := by
      rw [length_drop]
      omega
    rw [ih (ne_nil_of_length_pos hdrop) (by rw [length_drop]; omega) (by omega) hdrop]
    exact (events_split streamId id payload _ endStream hlong).symm
  rw [Nat.min_eq_left hshort, drop_length, take_length, decide_eq_true rfl, Bool.and_true]
  have hnil : ∀ loop, dataBytesLoop id endStream loop [] = [] := by
    intro loop
    cases loop <;> rfl
  rw [hnil, wireFrames_nil, flatMap_nil, append_nil]

theorem bytesEvents_dataBytes (streamId id : UInt32) (payload : Bytes) (endStream : Bool) :
    bytesEvents streamId (dataBytes id payload endStream) =
      (data id payload endStream).events streamId := by
  unfold bytesEvents dataBytes
  have hmax : kDefaultMaxFrameSize.toNat = 16384 := rfl
  split
  · next hlong =>
    exact wireFrames_dataBytesLoop streamId id endStream
      (ne_nil_of_length_pos (by omega)) (Nat.le_refl _) (Nat.le_refl _)
  next hshort =>
  have hbuild := @wireFrames_build payload (8 + payload.length) id endStream (by omega) [] streamId
  rw [append_nil] at hbuild
  rw [length_build, show 9 + payload.length = 8 + payload.length + 1 by omega, hbuild]
  rw [wireFrames_nil, flatMap_nil, append_nil]

end Http2FrameBuilder

/-! ## Streams that end with an empty chunk -/

/-- There is data, and the end of the stream is an empty chunk after it. -/
structure H2StreamSendState.EndsEmpty (stream : H2StreamSendState) : Prop where
  endStream : stream.pending.endStream = true
  rest_ne : stream.pending.rest ≠ []
  last_empty : stream.pending.chunks.getLast? = some []

namespace Http2OutboundScheduler

open H2PendingData H2StreamSendState

variable {maxFrameSize conn n : Nat} {config : H2SchedulerConfig} {s s' stream : H2StreamSendState}
  {streams : List H2StreamSendState}

theorem getLast?_of_suffix {α : Type} {l l' : List α} (h : l' <:+ l) (hne : l' ≠ []) :
    l'.getLast? = l.getLast? := by
  obtain ⟨front, rfl⟩ := h
  rw [getLast?_append_of_ne_nil _ hne]

theorem chunks_ne_of_rest (h : s.pending.rest ≠ []) : s.pending.chunks ≠ [] := by
  intro hnil
  apply h
  rw [rest, hnil]

theorem EndsEmpty.of_advanced (h : Advanced n s s') (H : s'.EndsEmpty) : s.EndsEmpty where
  endStream := h.endStream_of H.endStream
  rest_ne := by
    intro hnil
    apply H.rest_ne
    rw [h.rest_eq, hnil, drop_nil]
  last_empty := by
    rw [← getLast?_of_suffix h.chunks_suffix (chunks_ne_of_rest H.rest_ne)]
    exact H.last_empty

/-- The end of the only chunk is the end of the data, unless there is an empty chunk after it. -/
theorem last_chunk_iff (hpos : 0 < n) (hn : n ≤ s.pending.frontPendingSize)
    (hlast : s.pending.chunks.getLast? = some [] → n ≠ s.pending.rest.length) :
    (s.pending.chunks.length = 1 ∧ s.pending.frontOffset + n = (s.pending.chunks.headD []).length) ↔
      (s.pending.advance n).chunks = [] := by
  have hnorm : (s.pending.advance n).Normalized := normalized_normalizePending _
  rw [← hnorm.rest_eq_nil, rest_advance hn, drop_eq_nil_iff]
  obtain ⟨⟨chunks, frontOffset, endStream⟩, deficit, id, win, weight, queued⟩ := s
  simp only [rest, frontPendingSize] at hn hlast ⊢
  cases chunks with
  | nil => exact absurd (Nat.lt_of_lt_of_le hpos hn) (Nat.lt_irrefl 0)
  | cons front chunks =>
  simp only [length_append, length_drop, length_cons, headD_cons] at hn hlast ⊢
  constructor
  · rintro ⟨hone, hoff⟩
    obtain rfl := List.length_eq_zero_iff.1 (Nat.succ.inj hone)
    simp only [flatten_nil, length_nil]
    omega
  intro hle
  have hflat : chunks.flatten.length = 0 := by omega
  refine ⟨?_, by omega⟩
  -- a further chunk would be the empty last one
  rcases eq_nil_or_concat chunks with rfl | ⟨front', last, rfl⟩
  · rfl
  have hnil : last = [] := by
    simp only [concat_eq_append, flatten_append, length_append, flatten_singleton] at hflat
    exact List.length_eq_zero_iff.1 (by omega)
  subst hnil
  refine absurd ?_ (hlast ?_)
  · omega
  rw [concat_eq_append, ← cons_append, getLast?_concat]

/-- One piece of data: the same stream after it and the same events. -/
theorem send_agree (hpos : 0 < n) (hn : n ≤ s.pending.frontPendingSize)
    (hsafe : ¬ (s.EndsEmpty ∧ n = s.pending.rest.length)) :
    (sendFrame s n).2 = (sendBytes s n).2 ∧
      ∀ streamId, (sendFrame s n).1.events streamId = bytesEvents streamId (sendBytes s n).1 := by
  have hend : ((s.pending.advance n).endStream && (s.pending.advance n).chunks.isEmpty) =
      (s.pending.endStream && s.pending.chunks.length = 1 &&
        s.pending.frontOffset + n = (s.pending.chunks.headD []).length) := by
    cases hes : s.pending.endStream with
    | false => rw [endStream_advance, hes, Bool.false_and, Bool.false_and, Bool.false_and]
    | true =>
    have hle := s.pending.frontPendingSize_le
    have hiff := last_chunk_iff hpos hn fun hlast heq =>
      hsafe ⟨⟨hes, ne_nil_of_length_pos (by omega), hlast⟩, heq⟩
    rw [endStream_advance, hes, Bool.true_and, Bool.true_and, Bool.eq_iff_iff,
      List.isEmpty_iff, ← hiff, Bool.and_eq_true, decide_eq_true_iff, decide_eq_true_iff]
  unfold sendFrame sendBytes
  simp only
  rw [hend]
  exact ⟨rfl, fun streamId => (Http2FrameBuilder.bytesEvents_dataBytes ..).symm⟩

theorem sendChunks_agree (hmax : 0 < maxFrameSize) (hnorm : stream.pending.Normalized)
    (hsafe : stream.EndsEmpty → ¬ stream.pending.rest.length ≤ served conn stream) :
    SameSelection (sendChunks sendFrame maxFrameSize rounds conn stream)
      (sendChunks sendBytes maxFrameSize rounds conn stream) := by
  induction rounds generalizing conn stream with
  | zero => exact .empty _
  | succ rounds ih =>
  by_cases hcan : CanSend conn stream
  · rw [sendChunks_of_canSend hnorm hmax hcan, sendChunks_of_canSend hnorm hmax hcan]
    have hpos := chunkSize_pos hnorm hmax hcan
    obtain ⟨hconn, hwin, hfront, hdef⟩ := chunkSize_le maxFrameSize conn stream
    have hserved := served_afterChunk sendFrame_law maxFrameSize conn stream
    have hadv := sendFrame_law.advanced hfront hwin
    generalize chunkSize maxFrameSize conn stream = chunk at *
    obtain ⟨hsent, hevents⟩ := send_agree hpos hfront fun ⟨hends, heq⟩ =>
      hsafe hends (by omega)
    have hafter : afterChunk sendFrame stream chunk = afterChunk sendBytes stream chunk := by
      unfold afterChunk
      rw [hsent]
    have hnext := @ih (conn - chunk) (afterChunk sendFrame stream chunk)
      (sendFrame_law.normalized _) fun hends hle => by
        have hends := EndsEmpty.of_advanced hadv hends
        rw [hadv.rest_eq, length_drop] at hle
        exact hsafe hends (by omega)
    simp only [← hafter]
    have hone : SameSelection (⟨[(sendFrame stream chunk).1], chunk⟩, ())
        (⟨[(sendBytes stream chunk).1], chunk⟩, ()) := by
      refine ⟨rfl, fun id => ?_, rfl⟩
      simp only [flatMap_cons, flatMap_nil, append_nil]
      exact hevents id
    exact hone.append hnext
  rw [sendChunks_of_not_canSend hcan, sendChunks_of_not_canSend hcan]
  exact .empty _

theorem takeTurn_agree (hmax : 0 < maxFrameSize)
    (hsafe : stream.EndsEmpty → ¬ stream.pending.rest.length ≤ min conn (stream.share config 1)) :
    SameSelection (takeTurn sendFrame maxFrameSize config conn stream)
      (takeTurn sendBytes maxFrameSize config conn stream) := by
  have hnorm : Advanced 0 stream (credit config stream.normalized) :=
    ⟨rest_normalizePending _, rfl, rfl, rfl, normalizeChunks_suffix _ _, id⟩
  unfold takeTurn
  split
  · exact .empty _
  refine sendChunks_agree hmax (normalized_normalizePending stream.pending) fun hends => ?_
  rw [served_credit, hnorm.rest_eq, drop_zero]
  exact hsafe (EndsEmpty.of_advanced hnorm hends)

/-- No stream that ends empty gets to its end in this round. -/
def RoundSafe (config : H2SchedulerConfig) (conn : Nat) (streams : List H2StreamSendState) : Prop :=
  ∀ pre s post, streams = pre ++ s :: post → s.EndsEmpty →
    ¬ (s.pending.rest.length ≤ s.share config 1 ∧
      (pre.map (share config 1)).sum + s.share config 1 ≤ conn)

theorem sendRound_agree (hmax : 0 < maxFrameSize) (hconn : 0 < conn)
    (hsafe : RoundSafe config conn streams) :
    SameSelection (sendRound sendFrame maxFrameSize config conn streams)
      (sendRound sendBytes maxFrameSize config conn streams) := by
  induction streams generalizing conn with
  | nil => exact .empty _
  | cons stream streams ih =>
  have hturn : SameSelection (takeTurn sendFrame maxFrameSize config conn stream)
      (takeTurn sendBytes maxFrameSize config conn stream) := by
    refine takeTurn_agree hmax fun hends hle => hsafe [] stream streams rfl hends ?_
    have hshare : stream.share config 1 ≤ stream.need := deficitShare_le ..
    have hneed : stream.need ≤ stream.pending.rest.length := Nat.min_le_left _ _
    refine ⟨by omega, ?_⟩
    simp only [map_nil, sum_nil]
    omega
  obtain ⟨-, -, hleft, -⟩ := takeTurn_spec stream config sendFrame_law hmax conn
  rw [sendRound_cons hconn, sendRound_cons hconn]
  simp only [← hturn.after_eq]
  split
  · exact { hturn with after_eq := rfl }
  next hne =>
  have hrest := ih (Nat.pos_of_ne_zero hne) fun pre s post heq hends ⟨hle, hsum⟩ => by
    refine hsafe (stream :: pre) s post (by rw [heq]; rfl) hends ⟨hle, ?_⟩
    rw [hleft] at hsum hne
    rw [map_cons, sum_cons]
    omega
  exact ⟨by rw [hrest.after_eq], (hturn.append hrest).events_eq, (hturn.append hrest).total_eq⟩

/-- A stream that ends empty, and that may send all its data from the connection window. -/
structure LosesEnd (config : H2SchedulerConfig) (conn : Nat) (pre : List H2StreamSendState)
    (s : H2StreamSendState) (post : List H2StreamSendState) : Prop where
  endsEmpty : s.EndsEmpty
  rest_le : s.pending.rest.length ≤ s.window
  finishes : Finishes (share config) need conn pre s post

theorem roundSafe_of_not_losesEnd
    (hsafe : ∀ pre s post, streams = pre ++ s :: post → ¬ LosesEnd config conn pre s post) :
    RoundSafe config conn streams := by
  intro pre s post heq hends ⟨hle, hsum⟩
  have hshare := @share_le_need config 1 s
  have hneed := need_le_rest s
  have hwin := need_le_window s
  exact hsafe pre s post heq ⟨hends, by omega, .of_first share_zero (by omega) hsum⟩

theorem LosesEnd.of_turned (hpre : List.Forall₂ (Turned config) pre pre') (hs : Turned config s s')
    (hpost : List.Forall₂ (Turned config) post post')
    (hconn : conn = (pre.map (share config 1)).sum + s.share config 1 +
      (post.map (share config 1)).sum + left)
    (h : LosesEnd config left pre' s' post') : LosesEnd config conn pre s post where
  endsEmpty := EndsEmpty.of_advanced hs.advanced h.endsEmpty
  rest_le := by
    have hle := h.rest_le
    have hshare := @share_le_need config 1 s
    have hrest := need_le_rest s
    have hwin := need_le_window s
    rw [hs.advanced.rest_eq, hs.advanced.window_eq, length_drop] at hle
    omega
  finishes := (finishes_iff share_zero (hpre.imp fun _ _ h => h.turn) hs.turn
    (hpost.imp fun _ _ h => h.turn)).2 (.inr ⟨left, hconn, h.finishes⟩)

theorem sendRounds_agree {rounds : Nat} (hmax : 0 < maxFrameSize)
    (hsafe : ∀ pre s post, streams = pre ++ s :: post → ¬ LosesEnd config conn pre s post) :
    SameSelection (sendRounds sendFrame maxFrameSize config rounds conn streams)
      (sendRounds sendBytes maxFrameSize config rounds conn streams) := by
  induction rounds generalizing conn streams with
  | zero => exact .empty _
  | succ rounds ih =>
  rw [sendRounds, sendRounds]
  split
  · next hconn =>
    have hround : SameSelection (sendRound sendFrame maxFrameSize config conn streams)
        (sendRound sendBytes maxFrameSize config conn streams) :=
      sendRound_agree hmax hconn (roundSafe_of_not_losesEnd hsafe)
    obtain ⟨-, hframes, hleft, hturned⟩ :=
      @sendRound_spec _ _ _ config _ sendFrame_law hmax hconn streams
    obtain ⟨-, hframes', -⟩ := @sendRound_spec _ _ _ config _ sendBytes_law hmax hconn streams
    simp only [← hround.after_eq, List.isEmpty_iff]
    simp only [hframes, hframes']
    split
    · exact { hround with after_eq := rfl }
    have hnext := @ih (sendRound sendFrame maxFrameSize config conn streams).2.1
      (sendRound sendFrame maxFrameSize config conn streams).2.2 ?_
    · exact ⟨hnext.after_eq, (hround.append hnext).events_eq, (hround.append hnext).total_eq⟩
    rw [hleft]
    intro pre' s' post' heq hloses
    -- with no window left nothing finishes that has data
    rcases Nat.lt_or_ge conn (streams.map (share config 1)).sum with hcut | hle
    · rw [Nat.sub_eq_zero_of_le (Nat.le_of_lt hcut)] at hloses
      obtain ⟨hends, hrest, round, hneed, hsum⟩ := hloses
      have hzero : s'.need = 0 := by omega
      have hnil : s'.pending.rest.length = 0 := by
        unfold need at hzero
        omega
      exact hends.rest_ne (List.length_eq_zero_iff.1 hnil)
    have hall := hturned hle
    rw [heq] at hall
    have hpre := forall₂_take_append _ _ _ hall
    obtain ⟨s, post, hs, hpost, hdrop⟩ :=
      List.forall₂_cons_right_iff.1 (forall₂_drop_append _ _ _ hall)
    have hsplit := take_append_drop pre'.length streams
    rw [hdrop] at hsplit
    refine hsafe _ s post hsplit.symm (.of_turned hpre hs hpost ?_ hloses)
    rw [← sum_split, hsplit]
    omega
  exact .empty _

/-! ## Streams that lose their end -/

variable {F : Type} {send : H2StreamSendState → Nat → F × H2StreamSendState}
  {pre post : List H2StreamSendState}

theorem getElem?_middle {α : Type} (l : List α) (a : α) (l' : List α) :
    (l ++ a :: l')[l.length]? = some a := by
  rw [getElem?_append_right (Nat.le_refl _), Nat.sub_self, getElem?_cons_zero]

/-- A stream whose turn comes before the window is used up gets its share. -/
theorem sendRound_at (H : SendLaw send) (hmax : 0 < maxFrameSize) (hconn : 0 < conn)
    (post : List H2StreamSendState)
    (hsum : (pre.map (share config 1)).sum + s.share config 1 ≤ conn) :
    ∃ s', (sendRound send maxFrameSize config conn (pre ++ s :: post)).2.2[pre.length]? = some s' ∧
      Advanced (s.share config 1) s s' := by
  induction pre generalizing conn with
  | nil =>
    obtain ⟨-, -, -, -, hadv, -⟩ := takeTurn_spec s config H hmax conn
    simp only [map_nil, sum_nil, Nat.zero_add] at hsum
    rw [Nat.min_eq_right hsum] at hadv
    refine ⟨_, ?_, hadv⟩
    rw [nil_append, sendRound_cons hconn]
    simp only
    split <;> rfl
  | cons stream pre ih =>
  rw [map_cons, sum_cons] at hsum
  obtain ⟨-, -, hleft, -⟩ := takeTurn_spec stream config H hmax conn
  rw [cons_append, sendRound_cons hconn]
  simp only
  split
  · next hzero =>
    have hshare : s.share config 1 = 0 := by omega
    refine ⟨s, ?_, ?_⟩
    · rw [length_cons, getElem?_cons_succ]
      exact getElem?_middle pre s post
    rw [hshare]
    exact .refl s
  next hne =>
  obtain ⟨s', hget, hadv⟩ := ih (Nat.pos_of_ne_zero hne) (by omega)
  exact ⟨s', by rw [length_cons, getElem?_cons_succ]; exact hget, hadv⟩

theorem forall₂_append_left {α β : Type} {R : α → β → Prop} {l₁ l₂ : List α} {l' : List β} (h : List.Forall₂ R (l₁ ++ l₂) l') :
    ∃ l₁' l₂', List.Forall₂ R l₁ l₁' ∧ List.Forall₂ R l₂ l₂' ∧ l' = l₁' ++ l₂' := by
  induction l₁ generalizing l' with
  | nil => exact ⟨[], l', .nil, h, rfl⟩
  | cons s l₁ ih =>
  obtain ⟨s', tail, hs, htail, rfl⟩ := List.forall₂_cons_left_iff.1 h
  obtain ⟨l₁', l₂', h₁, h₂, rfl⟩ := ih htail
  exact ⟨s' :: l₁', l₂', .cons hs h₁, h₂, rfl⟩

theorem getElem?_of_forall₂ {α β : Type} {R : α → β → Prop} {l : List α} {l' : List β} {a : α}
    (h : List.Forall₂ R l l') {i : Nat} (hget : l[i]? = some a) :
    ∃ b, l'[i]? = some b ∧ R a b := by
  induction h generalizing i with
  | nil => cases hget
  | cons hhead _ ih =>
  cases i with
  | zero =>
    obtain rfl : _ = a := Option.some.inj hget
    exact ⟨_, rfl, hhead⟩
  | succ i => exact ih hget

theorem rest_nil_of_forall₂ {i : Nat}
    (h : List.Forall₂ (fun s s' => ∃ m, m ≤ s.need ∧ Advanced m s s') l l')
    (hget : ∃ s, l[i]? = some s ∧ s.pending.rest = []) :
    ∃ s', l'[i]? = some s' ∧ s'.pending.rest = [] := by
  obtain ⟨s, hs, hnil⟩ := hget
  obtain ⟨s', hs', m, -, hadv⟩ := getElem?_of_forall₂ h hs
  exact ⟨s', hs', by rw [hadv.rest_eq, hnil, drop_nil]⟩

/-- A stream that finishes within its window has nothing left after the rounds. -/
theorem sendRounds_drains (H : SendLaw send) (hmax : 0 < maxFrameSize)
    (hrounds : conn < rounds) (hrest : s.pending.rest.length ≤ s.window)
    (hfin : Finishes (share config) need conn pre s post) :
    ∃ s', (sendRounds send maxFrameSize config rounds conn (pre ++ s :: post)).2[pre.length]? =
      some s' ∧ s'.pending.rest = [] := by
  induction rounds generalizing conn pre s post with
  | zero => omega
  | succ rounds ih =>
  have hneed : s.need = s.pending.rest.length := Nat.min_eq_left hrest
  rw [sendRounds]
  by_cases hconn : 0 < conn
  · obtain ⟨-, hframes, hleft, hturned⟩ :=
      @sendRound_spec _ _ _ config _ H hmax hconn (pre ++ s :: post)
    rw [sum_split] at hframes hleft hturned
    rw [if_pos hconn]
    simp only [List.isEmpty_iff, hframes]
    have hfirst : s.need ≤ s.share config 1 →
        (pre.map (share config 1)).sum + s.share config 1 ≤ conn →
        ∃ s', (sendRound send maxFrameSize config conn (pre ++ s :: post)).2.2[pre.length]? =
          some s' ∧ s'.pending.rest = [] := by
      intro hall hsum
      obtain ⟨s', hget, hadv⟩ := sendRound_at H hmax hconn post hsum
      exact ⟨s', hget, by rw [hadv.rest_eq, drop_eq_nil_of_le (by omega)]⟩
    rcases Nat.lt_or_ge conn ((pre.map (share config 1)).sum + s.share config 1 +
      (post.map (share config 1)).sum) with hcut | hle
    · obtain ⟨hall, hsum⟩ := hfin.first share_one_le hcut
      rw [if_neg (by omega)]
      exact rest_nil_of_forall₂ ((stepRel_advanced H).sendRounds H hmax _ _ _) (hfirst hall hsum)
    obtain ⟨pre', tail, hpre, htail, hafter⟩ := forall₂_append_left (hturned hle)
    obtain ⟨s', post', hs, hpost, rfl⟩ := List.forall₂_cons_left_iff.1 htail
    rcases (finishes_iff share_zero (hpre.imp fun _ _ h => h.turn) hs.turn
      (hpost.imp fun _ _ h => h.turn)).1 hfin with ⟨hall, hsum⟩ | ⟨left, hbudget, hfin'⟩
    · split
      · exact hfirst hall hsum
      exact rest_nil_of_forall₂ ((stepRel_advanced H).sendRounds H hmax _ _ _)
        (hfirst hall hsum)
    split
    · next hzero =>
      have hneed' := @need_of_share_one config s (by omega)
      exact hfirst (by omega) (by omega)
    next hpos =>
    have hrest' : s'.pending.rest.length ≤ s'.window := by
      rw [hs.advanced.rest_eq, hs.advanced.window_eq, length_drop]
      omega
    rw [hafter, hleft, hpre.length_eq, hbudget, Nat.add_sub_cancel_left]
    exact ih (by omega) hrest' hfin'
  obtain ⟨round, hall, hsum⟩ := hfin
  rw [if_neg hconn]
  exact ⟨s, getElem?_middle pre s post, List.length_eq_zero_iff.1 (by omega)⟩

theorem stepRel_sendFrame : StepRel sendFrame fun s s' =>
    (s.pending.rest = [] → s.pending.endStream = false) →
      s'.pending.rest = [] → s'.pending.endStream = false where
  refl _ := id
  trans := fun h h' => h' ∘ h
  idle s _ _ := fun h hnil => h ((rest_normalizePending s.pending).symm.trans hnil)
  chunk {s n} _ _ _ _ := by
    intro _ hnil
    have hnorm : (afterChunk sendFrame s n).pending.Normalized := sendFrame_law.normalized n
    have hchunks : (s.pending.advance n).chunks = [] := by
      rw [← sendFrame_law.chunks]
      exact hnorm.rest_eq_nil.1 hnil
    show (markEnd _ ((s.pending.advance n).endStream &&
      (s.pending.advance n).chunks.isEmpty)).pending.endStream = false
    rw [hchunks, isEmpty_nil, Bool.and_true]
    unfold markEnd
    split
    · rfl
    next h => exact eq_false_of_ne_true h

/-- END_STREAM is asked for, and an empty chunk stands before it. -/
def Stuck (s : H2StreamSendState) : Prop :=
  s.pending.endStream = true ∧ (s.pending.chunks = [] ∨ s.pending.chunks.getLast? = some [])

theorem Stuck.of_suffix (h : Stuck s) (hend : s'.pending.endStream = true)
    (hsuffix : s'.pending.chunks <:+ s.pending.chunks) : Stuck s' := by
  refine ⟨hend, ?_⟩
  by_cases hnil : s'.pending.chunks = []
  · exact .inl hnil
  right
  rw [getLast?_of_suffix hsuffix hnil]
  refine h.2.resolve_left fun hnil' => hnil ?_
  rw [hnil'] at hsuffix
  exact List.suffix_nil.1 hsuffix

/-- The bytes of a stream never bring an end that is stuck. -/
theorem stepRel_sendBytes : StepRel sendBytes fun s s' => Stuck s → Stuck s' where
  refl _ := id
  trans := fun h h' => h' ∘ h
  idle _ _ _ := fun h => h.of_suffix h.1 (normalizeChunks_suffix _ _)
  chunk {s n} hnorm hpos hfront _ := by
    intro hstuck
    have hend : (s.pending.endStream && s.pending.chunks.length = 1 &&
        s.pending.frontOffset + n = (s.pending.chunks.headD []).length) = false := by
      rw [Bool.and_eq_false_iff, Bool.and_eq_false_iff]
      by_contra hall
      simp only [not_or, Bool.not_eq_false, decide_eq_true_iff] at hall
      obtain ⟨⟨-, hone⟩, -⟩ := hall
      obtain ⟨front, hfronts⟩ := List.length_eq_one_iff.1 hone
      obtain rfl : front = [] := by
        have hlast := hstuck.2
        rw [hfronts] at hlast
        rcases hlast with hnil | hlast
        · cases hnil
        exact Option.some.inj hlast
      have hlt : s.pending.frontOffset < 0 := hnorm [] (by rw [hfronts]; rfl)
      exact Nat.not_lt_zero _ hlt
    refine hstuck.of_suffix ?_ ?_
    · show (markEnd _ _).pending.endStream = true
      rw [hend]
      exact hstuck.1
    show (sendBytes s n).2.pending.chunks <:+ _
    rw [sendBytes_law.chunks]
    exact chunks_advance_suffix _ _

/-! ## The two selections -/

theorem endStream_takeEndStream (s : H2StreamSendState) (hnil : (takeEndStream s).pending.rest = []) :
    (takeEndStream s).pending.endStream = false := by
  have hchunks : s.pending.normalizePending.chunks = [] := by
    rw [← (normalized_normalizePending _).rest_eq_nil, rest_normalizePending]
    exact (takeEndStream_advanced s).rest_eq.symm.trans hnil
  unfold takeEndStream shouldSendEndStreamOnly
  simp only [normalized, hchunks, isEmpty_nil, Bool.and_true]
  split
  · rfl
  next h => exact eq_false_of_ne_true h

theorem endsEmpty_takeEndStream : (takeEndStream s).EndsEmpty ↔ s.EndsEmpty := by
  refine ⟨EndsEmpty.of_advanced (takeEndStream_advanced s), fun h => ?_⟩
  have hne : s.pending.normalizePending.chunks ≠ [] := by
    rw [Ne, ← (normalized_normalizePending _).rest_eq_nil, rest_normalizePending]
    exact h.rest_ne
  have heq : takeEndStream s = s.normalized := by
    unfold takeEndStream shouldSendEndStreamOnly
    simp only
    rw [if_neg]
    simp only [normalized, Bool.and_eq_true, List.isEmpty_iff]
    exact fun hand => hne hand.2
  rw [heq]
  exact ⟨h.endStream, by rw [normalized, rest_normalizePending]; exact h.rest_ne,
    (getLast?_of_suffix (normalizeChunks_suffix _ _) hne).trans h.last_empty⟩

theorem losesEnd_map :
    LosesEnd config conn (pre.map takeEndStream) (takeEndStream s) (post.map takeEndStream) ↔
      LosesEnd config conn pre s post := by
  have hadv := takeEndStream_advanced s
  have hsum : ∀ k (l : List H2StreamSendState),
      ((l.map takeEndStream).map (share config k)).sum = (l.map (share config k)).sum := by
    intro k l
    rw [map_map]
    congr 1
    exact map_congr_left fun s _ => share_takeEndStream k s
  have hfin : Finishes (share config) need conn (pre.map takeEndStream) (takeEndStream s)
      (post.map takeEndStream) ↔ Finishes (share config) need conn pre s post := by
    unfold Finishes
    simp only [hsum, share_takeEndStream, hadv.need_eq, Nat.sub_zero]
  constructor
  · rintro ⟨hends, hrest, hfinish⟩
    rw [hadv.rest_eq, hadv.window_eq, drop_zero] at hrest
    exact ⟨endsEmpty_takeEndStream.1 hends, hrest, hfin.1 hfinish⟩
  rintro ⟨hends, hrest, hfinish⟩
  refine ⟨endsEmpty_takeEndStream.2 hends, ?_, hfin.2 hfinish⟩
  rw [hadv.rest_eq, hadv.window_eq, drop_zero]
  exact hrest

theorem endStreamOnly_agree (streams : List H2StreamSendState) (streamId : UInt32) :
    (endStreamOnly (fun id => Http2FrameBuilder.data id [] true) streams).flatMap
      (Http2DataFrame.events streamId) =
      (endStreamOnly (fun id => Http2FrameBuilder.dataBytes id [] true) streams).flatMap
        (bytesEvents streamId) := by
  induction streams with
  | nil => rfl
  | cons s streams ih =>
  unfold endStreamOnly at ih ⊢
  rw [filterMap_cons, filterMap_cons]
  split_ifs
  · simp only [flatMap_cons]
    rw [ih, Http2FrameBuilder.bytesEvents_dataBytes]
  exact ih

/-- The two selections agree exactly when no stream loses its end. -/
theorem pickSendable_agree_iff (budget : H2OutboundBudget) (streams : List H2StreamSendState)
    (config : H2SchedulerConfig) :
    SameSelection (pickSendableFrames budget streams config)
        (pickSendableBytes budget streams config) ↔
      (budget.maxFrameSize = 0 ∨ ∀ pre s post, streams = pre ++ s :: post →
        ¬ LosesEnd config budget.connWindow.toInt.toNat pre s post) := by
  unfold pickSendableFrames pickSendableBytes pickSendable
  by_cases hmax : budget.maxFrameSize = 0
  · simp only [hmax, if_true, true_or, iff_true]
    exact .empty _
  simp only [hmax, if_false, false_or]
  have hpos : 0 < budget.maxFrameSize.toNat :=
    Nat.pos_of_ne_zero fun h => hmax (UInt32.toNat_inj.1 h)
  constructor
  · intro hsame pre s post heq hloses
    have hafter := hsame.after_eq
    rw [heq, map_append, map_cons] at hafter
    have hloses' := losesEnd_map.2 hloses
    have hmid := getElem?_middle (pre.map takeEndStream) (takeEndStream s) (post.map takeEndStream)
    obtain ⟨s', hget, hnil⟩ := sendRounds_drains sendFrame_law hpos (Nat.lt_succ_self _)
      hloses'.rest_le hloses'.finishes
    obtain ⟨sf, hgetf, hframe⟩ :=
      getElem?_of_forall₂ (stepRel_sendFrame.sendRounds sendFrame_law hpos _ _ _) hmid
    obtain ⟨sb, hgetb, hbytes⟩ :=
      getElem?_of_forall₂ (stepRel_sendBytes.sendRounds sendBytes_law hpos _ _ _) hmid
    have hstuck := hbytes ⟨hloses'.endsEmpty.endStream, .inr hloses'.endsEmpty.last_empty⟩
    rw [hget] at hgetf
    obtain rfl := Option.some.inj hgetf
    rw [← hafter, hget] at hgetb
    obtain rfl := Option.some.inj hgetb
    have hcleared := hframe (endStream_takeEndStream s) hnil
    exact Bool.false_ne_true (hcleared.symm.trans hstuck.1)
  intro hsafe
  have hrounds := @sendRounds_agree budget.maxFrameSize.toNat budget.connWindow.toInt.toNat config
    (streams.map takeEndStream) (budget.connWindow.toInt.toNat + 1) hpos ?_
  · have hends : SameSelection
        (⟨endStreamOnly (fun id => Http2FrameBuilder.data id [] true) streams, 0⟩, ())
        (⟨endStreamOnly (fun id => Http2FrameBuilder.dataBytes id [] true) streams, 0⟩, ()) :=
      ⟨rfl, endStreamOnly_agree streams, rfl⟩
    exact hends.append hrounds
  intro pre' s' post' heq hloses
  obtain ⟨pre, tail, rfl, rfl, htail⟩ := List.map_eq_append_iff.1 heq
  obtain ⟨s, post, rfl, rfl, rfl⟩ := List.map_eq_cons_iff.1 htail
  exact hsafe pre s post rfl (losesEnd_map.1 hloses)

/-- Two chunks, the second empty, and the end of the stream after them. -/
def emptyTail : H2StreamSendState :=
  { pending := { chunks := [[97, 98], []], endStream := true }, streamId := 1, streamWindow := 100 }

theorem emptyTail_differs :
    ¬ SameSelection (pickSendableFrames { connWindow := 10 } [emptyTail] {})
      (pickSendableBytes { connWindow := 10 } [emptyTail] {}) := by
  intro h
  exact absurd h.after_eq (by decide)

end Http2OutboundScheduler

end Galay.Http2
