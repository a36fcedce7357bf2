import Galay.Http2.Outbound.SchedulerLemmas
import Galay.Lib.Dealt

/-!
# What a selection of frames sends and what it leaves

Every frame that is picked belongs to an entry, and what the entry's own frames say, followed by what
the entry has still to say, is what it had to say before (`Emits`). The end of a stream stands
behind its bytes there, so END_STREAM can neither come early nor twice.
-/

namespace Galay.Http2

open List
open Lib

/-- What the stream has still to say: its bytes, and `none` for END_STREAM. -/
def H2StreamSendState.log (stream : H2StreamSendState) : List (Option UInt8) :=
  stream.pending.rest.map some ++ if stream.pending.endStream then [none] else []

/-- The payloads of the frames. -/
def payloads (frames : List Http2DataFrame) : Bytes := frames.flatMap (·.data)

@[simp] theorem payloads_nil : payloads [] = [] := rfl

theorem payloads_cons (frame : Http2DataFrame) (frames : List Http2DataFrame) :
    payloads (frame :: frames) = frame.data ++ payloads frames := rfl

theorem payloads_append (frames frames' : List Http2DataFrame) :
    payloads (frames ++ frames') = payloads frames ++ payloads frames' := flatMap_append

namespace Http2OutboundScheduler

open H2PendingData H2StreamSendState

variable {maxFrameSize conn n : Nat} {config : H2SchedulerConfig} {s s' s'' : H2StreamSendState}
  {frames frames' : List Http2DataFrame}

/-! ## The frames of the loops -/

/-- What the frames of the loops make of their entry. -/
structure Emits (maxFrameSize : Nat) (s : H2StreamSendState) (frames : List Http2DataFrame)
    (s' : H2StreamSendState) : Prop where
  streamId_eq : s'.streamId = s.streamId
  streamIds : ∀ frame ∈ frames, frame.header.streamId = s.streamId
  log_eq : frames.flatMap Http2DataFrame.log ++ s'.log = s.log
  window_eq : s'.window + (payloads frames).length = s.window
  sizes : ∀ frame ∈ frames, frame.data.length ≤ maxFrameSize
  nonempty : ∀ frame ∈ frames, frame.data ≠ []
  ended : (s.pending.rest = [] → s.pending.endStream = false) →
    s'.pending.rest = [] → s'.pending.endStream = false

theorem Emits.idle (h : Advanced 0 s s') (hend : s'.pending.endStream = s.pending.endStream) :
    Emits maxFrameSize s [] s' where
  __ := h
  streamIds := nofun
  log_eq := by
    rw [flatMap_nil, nil_append, H2StreamSendState.log, h.rest_eq, hend]
    rfl
  sizes := nofun
  nonempty := nofun
  ended := by
    intro hended hrest
    rw [hend]
    exact hended (h.rest_eq.symm.trans hrest)

theorem Emits.trans (h : Emits maxFrameSize s frames s') (h' : Emits maxFrameSize s' frames' s'') :
    Emits maxFrameSize s (frames ++ frames') s'' where
  streamId_eq := h'.streamId_eq.trans h.streamId_eq
  streamIds frame hframe := by
    rcases List.mem_append.1 hframe with hmem | hmem
    · exact h.streamIds frame hmem
    exact (h'.streamIds frame hmem).trans h.streamId_eq
  log_eq := by rw [flatMap_append, append_assoc, h'.log_eq, h.log_eq]
  window_eq := by
    have := h.window_eq
    have := h'.window_eq
    rw [payloads_append, length_append]
    omega
  sizes frame hframe := by
    rcases List.mem_append.1 hframe with hmem | hmem
    · exact h.sizes frame hmem
    exact h'.sizes frame hmem
  nonempty frame hframe := by
    rcases List.mem_append.1 hframe with hmem | hmem
    · exact h.nonempty frame hmem
    exact h'.nonempty frame hmem
  ended hended := h'.ended (h.ended hended)

theorem length_frontData (hfront : n ≤ s.pending.frontPendingSize) :
    (s.pending.frontData n).length = n := by
  rw [frontData_eq hfront, length_take]
  exact Nat.min_eq_left (hfront.trans s.pending.frontPendingSize_le)

/-- One frame says the next bytes, and the end with the last of them. -/
theorem sendFrame_emits (hpos : 0 < n) (hfront : n ≤ s.pending.frontPendingSize)
    (hwin : n ≤ s.streamWindow.toInt.toNat) (hmax : n ≤ maxFrameSize) :
    Emits maxFrameSize s [(sendFrame s n).1] (afterChunk sendFrame s n) := by
  have hadv := sendFrame_law.advanced hfront hwin
  have hnorm : (s.pending.advance n).Normalized := normalized_normalizePending _
  have hlen := length_frontData hfront
  have hchunks : (afterChunk sendFrame s n).pending.rest = [] ↔ (s.pending.advance n).chunks = [] := by
    rw [hadv.rest_eq, ← rest_advance hfront, hnorm.rest_eq_nil]
  have hend : (afterChunk sendFrame s n).pending.endStream =
      (s.pending.endStream && !(s.pending.advance n).chunks.isEmpty) := by
    show (markEnd _ (s.pending.endStream && (s.pending.advance n).chunks.isEmpty)).pending.endStream = _
    unfold markEnd
    cases hstream : s.pending.endStream with
    | false =>
      rw [Bool.false_and, Bool.false_and, if_neg Bool.false_ne_true]
      exact hstream
    | true =>
    rw [Bool.true_and, Bool.true_and]
    cases (s.pending.advance n).chunks.isEmpty with
    | true => rfl
    | false => exact hstream
  refine ⟨hadv.streamId_eq, ?_, ?_, ?_, ?_, ?_, ?_⟩
  · intro frame hframe
    rw [List.mem_singleton.1 hframe]
    rfl
  · have hlog : (sendFrame s n).1.log = (s.pending.frontData n).map some ++
        if s.pending.endStream && (s.pending.advance n).chunks.isEmpty then [none] else [] :=
      Http2FrameBuilder.log_data ..
    rw [flatMap_singleton, hlog, H2StreamSendState.log, H2StreamSendState.log, hend, hadv.rest_eq,
      frontData_eq hfront]
    cases hempty : (s.pending.advance n).chunks.isEmpty with
    | true =>
      have hrest : s.pending.rest.drop n = [] := by
        rw [← hadv.rest_eq]
        exact hchunks.2 (List.isEmpty_iff.1 hempty)
      rw [hrest, take_of_length_le (List.drop_eq_nil_iff.1 hrest)]
      simp
    | false =>
    simp only [Bool.and_false, Bool.false_eq_true, if_false, Bool.not_false, Bool.and_true,
      append_nil]
    rw [← append_assoc, ← map_append, take_append_drop]
  · have hpay : payloads [(sendFrame s n).1] = s.pending.frontData n := flatMap_singleton _ _
    rw [hadv.window_eq, hpay, hlen]
    exact Nat.sub_add_cancel hwin
  · intro frame hframe
    rw [List.mem_singleton.1 hframe]
    exact hlen.le.trans hmax
  · intro frame hframe
    rw [List.mem_singleton.1 hframe]
    exact ne_nil_of_length_pos (hlen.symm ▸ hpos)
  intro _ hrest
  rw [hend, hchunks.1 hrest, isEmpty_nil, Bool.not_true, Bool.and_false]

theorem sendChunks_emits (hmax : 0 < maxFrameSize) (hnorm : s.pending.Normalized) :
    Emits maxFrameSize s (sendChunks sendFrame maxFrameSize rounds conn s).1.frames
      (sendChunks sendFrame maxFrameSize rounds conn s).2.2 := by
  induction rounds generalizing conn s with
  | zero => exact .idle (.refl s) rfl
  | succ rounds ih =>
  by_cases hcan : CanSend conn s
  · have hpos := chunkSize_pos hnorm hmax hcan
    obtain ⟨-, hwin, hfront, -⟩ := chunkSize_le maxFrameSize conn s
    have hsize : chunkSize maxFrameSize conn s ≤ maxFrameSize := by
      unfold chunkSize
      omega
    rw [sendChunks_of_canSend hnorm hmax hcan]
    exact (sendFrame_emits hpos hfront hwin hsize).trans (ih (sendFrame_law.normalized _))
  rw [sendChunks_of_not_canSend hcan]
  exact .idle (.refl s) rfl

theorem normalized_advanced (s : H2StreamSendState) : Advanced 0 s s.normalized :=
  ⟨rest_normalizePending _, rfl, rfl, rfl, normalizeChunks_suffix _ _, id⟩

theorem takeTurn_emits (hmax : 0 < maxFrameSize) :
    Emits maxFrameSize s (takeTurn sendFrame maxFrameSize config conn s).1.frames
      (takeTurn sendFrame maxFrameSize config conn s).2.2 := by
  unfold takeTurn
  split
  · refine .idle ⟨?_, ?_, ?_, ?_, ?_, ?_⟩ rfl
    · exact (normalized_advanced s).rest_eq
    · rfl
    · rfl
    · rfl
    · exact (normalized_advanced s).chunks_suffix
    exact id
  have hcredit : Emits maxFrameSize s [] (credit config s.normalized) := by
    refine .idle ⟨?_, rfl, rfl, rfl, ?_, id⟩ rfl
    · exact (normalized_advanced s).rest_eq
    exact (normalized_advanced s).chunks_suffix
  exact hcredit.trans (sendChunks_emits hmax (normalized_normalizePending s.pending))

theorem sendRound_emits (hmax : 0 < maxFrameSize) (hconn : 0 < conn)
    (streams : List H2StreamSendState) :
    Dealt (Emits maxFrameSize) streams
      (sendRound sendFrame maxFrameSize config conn streams).1.frames
      (sendRound sendFrame maxFrameSize config conn streams).2.2 := by
  have hidle (s : H2StreamSendState) : Emits maxFrameSize s [] s := .idle (.refl s) rfl
  induction streams generalizing conn with
  | nil => exact .nil
  | cons s streams ih =>
  rw [sendRound_cons hconn]
  simp only
  split
  · have hrest := Dealt.refl hidle streams
    rw [← append_nil (takeTurn sendFrame maxFrameSize config conn s).1.frames]
    exact .cons (takeTurn_emits hmax) hrest
  next hleft => exact .cons (takeTurn_emits hmax) (ih (Nat.pos_of_ne_zero hleft))

theorem sendRounds_emits (hmax : 0 < maxFrameSize) {rounds : Nat} (streams : List H2StreamSendState) :
    Dealt (Emits maxFrameSize) streams
      (sendRounds sendFrame maxFrameSize config rounds conn streams).1.frames
      (sendRounds sendFrame maxFrameSize config rounds conn streams).2 := by
  have hidle (s : H2StreamSendState) : Emits maxFrameSize s [] s := .idle (.refl s) rfl
  induction rounds generalizing conn streams with
  | zero => exact .refl hidle streams
  | succ rounds ih =>
  rw [sendRounds]
  split
  · next hconn =>
    have hround := @sendRound_emits _ _ config hmax hconn streams
    simp only
    split
    · exact hround
    exact hround.trans Emits.trans (ih _)
  exact .refl hidle streams

/-! ## The first loop -/

/-- An entry without data says its end at once. -/
structure EmitsEnd (s : H2StreamSendState) (frames : List Http2DataFrame) (s' : H2StreamSendState) :
    Prop where
  advanced : Advanced 0 s s'
  frames_eq : frames = if s.pending.rest = [] ∧ s.pending.endStream = true then
    [Http2FrameBuilder.data s.streamId [] true] else []
  endStream_eq : s'.pending.endStream = (s.pending.endStream && !s.pending.rest.isEmpty)

theorem endStreamOnly_emits (streams : List H2StreamSendState) :
    Dealt EmitsEnd streams
      (endStreamOnly (fun id => Http2FrameBuilder.data id [] true) streams)
      (streams.map takeEndStream) := by
  induction streams with
  | nil => exact .nil
  | cons s streams ih =>
  have hrest : s.pending.normalizePending.chunks = [] ↔ s.pending.rest = [] := by
    rw [← (normalized_normalizePending s.pending).rest_eq_nil, rest_normalizePending]
  have hadv := takeEndStream_advanced s
  rw [endStreamOnly, filterMap_cons]
  rw [endStreamOnly] at ih
  by_cases honly : s.pending.normalizePending.shouldSendEndStreamOnly = true
  · have hand : s.pending.endStream = true ∧ s.pending.rest = [] := by
      rw [shouldSendEndStreamOnly, Bool.and_eq_true, List.isEmpty_iff, hrest] at honly
      exact honly
    rw [if_pos honly]
    have hfirst : EmitsEnd s [Http2FrameBuilder.data s.streamId [] true] (takeEndStream s) := ?_
    · exact .cons hfirst ih
    refine ⟨hadv, (if_pos hand.symm).symm, ?_⟩
    unfold takeEndStream
    simp only [normalized, honly, if_true]
    rw [hand.1, hand.2]
    rfl
  have hand : ¬ (s.pending.rest = [] ∧ s.pending.endStream = true) := by
    rintro ⟨hnil, hend⟩
    apply honly
    rw [shouldSendEndStreamOnly, Bool.and_eq_true, List.isEmpty_iff, hrest]
    exact ⟨hend, hnil⟩
  rw [if_neg honly]
  have hfirst : EmitsEnd s [] (takeEndStream s) := ?_
  · exact .cons hfirst ih
  refine ⟨hadv, (if_neg hand).symm, ?_⟩
  unfold takeEndStream
  simp only [normalized, honly]
  show s.pending.endStream = _
  cases hend : s.pending.endStream with
  | false => rfl
  | true =>
  cases hnil : s.pending.rest with
  | nil => exact absurd ⟨hnil, hend⟩ hand
  | cons => rfl

/-! ## The selection -/

/-- What the frames of an entry are, from the entry before and after the selection. -/
structure Served (maxFrameSize : Nat) (s : H2StreamSendState) (frames : List Http2DataFrame)
    (s' : H2StreamSendState) : Prop where
  streamIds : ∀ frame ∈ frames, frame.header.streamId = s.streamId
  conserved : payloads frames ++ s'.pending.rest = s.pending.rest
  window : (payloads frames).length ≤ s.streamWindow.toInt.toNat
  sizes : ∀ frame ∈ frames, frame.data.length ≤ maxFrameSize
  once : frames.countP (·.header.isEndStream) ≤ 1
  /-- A frame carries END_STREAM where it is the one that leaves nothing to be sent. -/
  marked : ∀ front frame back, frames = front ++ frame :: back →
    (frame.header.isEndStream = true ↔
      s.pending.endStream = true ∧ payloads (front ++ [frame]) = s.pending.rest)
  /-- The end is said when the data is used up. -/
  ended : (∃ frame ∈ frames, frame.header.isEndStream = true) ↔
    maxFrameSize ≠ 0 ∧ s.pending.endStream = true ∧ s'.pending.rest = []

theorem log_frame (frame : Http2DataFrame) : frame.log =
    frame.data.map some ++ if frame.header.isEndStream then [none] else [] := rfl

variable (frames)

theorem somes_flatMap_log :
    (frames.flatMap Http2DataFrame.log).filterMap id = payloads frames := by
  induction frames with
  | nil => rfl
  | cons frame frames ih =>
  have hlog : frame.log.filterMap id = frame.data := by
    rw [log_frame, filterMap_append]
    cases frame.header.isEndStream <;> simp
  rw [flatMap_cons, filterMap_append, ih, hlog]
  rfl

theorem somes_log (s : H2StreamSendState) : s.log.filterMap id = s.pending.rest := by
  rw [H2StreamSendState.log, filterMap_append]
  cases s.pending.endStream <;> simp

theorem nones_flatMap_log :
    (frames.flatMap Http2DataFrame.log).count none = frames.countP (·.header.isEndStream) := by
  induction frames with
  | nil => rfl
  | cons frame frames ih =>
  have hlog : frame.log.count none = if frame.header.isEndStream then 1 else 0 := by
    rw [log_frame, count_append]
    cases frame.header.isEndStream <;> simp [count_eq_zero]
  rw [flatMap_cons, count_append, ih, hlog, countP_cons, Nat.add_comm]

variable {frames}

theorem nones_log (s : H2StreamSendState) :
    s.log.count none = if s.pending.endStream then 1 else 0 := by
  rw [H2StreamSendState.log, count_append]
  cases s.pending.endStream <;> simp [count_eq_zero]

theorem log_of_end (h : s.pending.endStream = true) :
    s.log = s.pending.rest.map some ++ [none] := by
  rw [H2StreamSendState.log, if_pos h]

theorem log_of_noEnd (h : ¬ s.pending.endStream = true) : s.log = s.pending.rest.map some := by
  rw [H2StreamSendState.log, if_neg h, append_nil]

theorem split_at_end {data : Bytes}
    (h : said ++ none :: left = data.map some ++ [none]) : said = data.map some ∧ left = [] := by
  induction data generalizing said with
  | nil =>
    cases said with
    | nil => exact ⟨rfl, (List.cons.inj h).2⟩
    | cons b said => cases said <;> cases h
  | cons b data ih =>
  cases said with
  | nil => cases h
  | cons b' said =>
  rw [cons_append, map_cons, cons_append, List.cons.injEq] at h
  obtain ⟨hsaid, hleft⟩ := ih h.2
  exact ⟨by rw [hsaid, h.1, map_cons], hleft⟩

theorem payloads_eq_nil (hnonempty : ∀ frame ∈ frames, frame.data ≠ [])
    (h : payloads frames = []) : frames = [] := by
  cases frames with
  | nil => rfl
  | cons frame frames =>
  rw [payloads_cons, append_eq_nil_iff] at h
  exact absurd h.1 (hnonempty frame mem_cons_self)

theorem Emits.marked {front : List Http2DataFrame} (h : Emits maxFrameSize s frames s')
    (hsplit : frames = front ++ frame :: back)
    (hend : frame.header.isEndStream = true) :
    s.pending.endStream = true ∧ payloads (front ++ [frame]) = s.pending.rest ∧ back = [] := by
  have hlog : (front.flatMap Http2DataFrame.log ++ frame.data.map some) ++
      none :: (back.flatMap Http2DataFrame.log ++ s'.log) = s.log := by
    rw [← h.log_eq, hsplit, flatMap_append, flatMap_cons, log_frame, if_pos hend]
    simp only [append_assoc, cons_append, nil_append]
  have hwanted : s.pending.endStream = true := by
    by_contra hnone
    rw [log_of_noEnd hnone] at hlog
    have hmem : none ∈ s.pending.rest.map some := by
      rw [← hlog]
      exact mem_append_right _ mem_cons_self
    obtain ⟨_, -, hcase⟩ := List.mem_map.1 hmem
    cases hcase
  rw [log_of_end hwanted] at hlog
  obtain ⟨hsaid, hleft⟩ := split_at_end hlog
  refine ⟨hwanted, ?_, ?_⟩
  · have := congrArg (List.filterMap id) hsaid
    rw [filterMap_append, somes_flatMap_log] at this
    simpa [payloads_append, payloads_cons] using this
  refine payloads_eq_nil (fun frame hframe => h.nonempty frame ?_) ?_
  · rw [hsplit]
    exact mem_append_right _ (mem_cons_of_mem _ hframe)
  rw [← somes_flatMap_log, (List.append_eq_nil_iff.1 hleft).1]
  rfl

/-- The bytes of an entry with data are sent as its frames, the end with the last of them. -/
theorem Emits.served (hmax : maxFrameSize ≠ 0) (h : Emits maxFrameSize s frames s')
    (hended : s.pending.rest = [] → s.pending.endStream = false) :
    Served maxFrameSize s frames s' := by
  have hconserved : payloads frames ++ s'.pending.rest = s.pending.rest := by
    have := congrArg (List.filterMap id) h.log_eq
    rwa [filterMap_append, somes_flatMap_log, somes_log, somes_log] at this
  have hcount : frames.countP (·.header.isEndStream) + (if s'.pending.endStream then 1 else 0) =
      if s.pending.endStream then 1 else 0 := by
    have := congrArg (List.count none) h.log_eq
    rwa [count_append, nones_flatMap_log, nones_log, nones_log] at this
  have hsome (hwanted : s.pending.endStream = true) (hrest : s'.pending.rest = []) :
      ∃ frame ∈ frames, frame.header.isEndStream = true := by
    rw [h.ended hended hrest, hwanted, if_neg Bool.false_ne_true, if_pos rfl] at hcount
    exact List.countP_pos_iff.1 (Nat.lt_of_lt_of_eq Nat.one_pos hcount.symm)
  refine ⟨h.streamIds, hconserved, ?_, h.sizes, ?_, ?_, ?_⟩
  · have := h.window_eq
    unfold H2StreamSendState.window at this
    omega
  · split at hcount <;> split at hcount <;> omega
  · intro front frame back hsplit
    constructor
    · intro hend
      obtain ⟨hwanted, hall, -⟩ := h.marked hsplit hend
      exact ⟨hwanted, hall⟩
    rintro ⟨hwanted, hall⟩
    have hback : payloads (front ++ [frame]) ++ (payloads back ++ s'.pending.rest) =
        payloads (front ++ [frame]) := by
      rw [hall, ← append_assoc, ← hall, ← payloads_append, append_assoc]
      exact hsplit ▸ hconserved.trans hall.symm
    obtain ⟨hback, hrest⟩ := List.append_eq_nil_iff.1 (List.append_right_eq_self.1 hback)
    have hback : back = [] := by
      refine payloads_eq_nil (fun frame hframe => h.nonempty frame ?_) hback
      rw [hsplit]
      exact mem_append_right _ (mem_cons_of_mem _ hframe)
    -- nothing is left, so the end has been said, and it is the last that was
    obtain ⟨last, hmem, hend⟩ := hsome hwanted hrest
    obtain ⟨before, after, hbefore⟩ := append_of_mem hmem
    obtain ⟨-, -, hafter⟩ := h.marked hbefore hend
    rw [hsplit, hback, hafter] at hbefore
    rw [(append_inj' hbefore rfl).2 |> List.singleton_inj.1]
    exact hend
  constructor
  · rintro ⟨frame, hframe, hend⟩
    obtain ⟨front, back, hsplit⟩ := append_of_mem hframe
    obtain ⟨hwanted, hall, hback⟩ := h.marked hsplit hend
    refine ⟨hmax, hwanted, ?_⟩
    rw [hsplit, hback, hall] at hconserved
    exact List.append_right_eq_self.1 hconserved
  rintro ⟨-, hwanted, hrest⟩
  exact hsome hwanted hrest

/-- An entry without data is served by the first loop alone. -/
theorem Emits.of_rest_nil (h : Emits maxFrameSize s frames s') (hrest : s.pending.rest = []) :
    frames = [] ∧ s'.pending.rest = [] := by
  have hconserved := congrArg (List.filterMap id) h.log_eq
  rw [filterMap_append, somes_flatMap_log, somes_log, somes_log, hrest,
    append_eq_nil_iff] at hconserved
  exact ⟨payloads_eq_nil h.nonempty hconserved.1, hconserved.2⟩

theorem EmitsEnd.served (hmax : maxFrameSize ≠ 0) (h : EmitsEnd s frames s')
    (h' : Emits maxFrameSize s' frames' s'') : Served maxFrameSize s (frames ++ frames') s'' := by
  have hrest : s'.pending.rest = s.pending.rest := h.advanced.rest_eq
  by_cases honly : s.pending.rest = [] ∧ s.pending.endStream = true
  · obtain ⟨rfl, hleft⟩ := h'.of_rest_nil (hrest.trans honly.1)
    have hframes : frames = [Http2FrameBuilder.data s.streamId [] true] := by
      rw [h.frames_eq, if_pos honly]
    subst hframes
    have hmarked : (Http2FrameBuilder.data s.streamId [] true).header.isEndStream = true :=
      Http2FrameBuilder.isEndStream_endFlags _ true false rfl
    rw [append_nil]
    refine ⟨?_, ?_, ?_, ?_, ?_, ?_, ?_⟩
    · intro frame hframe
      rw [List.mem_singleton.1 hframe]
      rfl
    · rw [hleft, honly.1]
      rfl
    · exact Nat.zero_le _
    · intro frame hframe
      rw [List.mem_singleton.1 hframe]
      exact Nat.zero_le _
    · exact countP_le_length
    · intro front frame back hsplit
      cases front with
      | nil =>
        cases hsplit
        refine iff_of_true hmarked ⟨honly.2, ?_⟩
        rw [honly.1]
        rfl
      | cons _ front => cases front <;> cases hsplit
    exact iff_of_true ⟨_, mem_singleton_self _, hmarked⟩ ⟨hmax, honly.2, hleft⟩
  have hframes : frames = [] := by rw [h.frames_eq, if_neg honly]
  have hend : s'.pending.endStream = s.pending.endStream := by
    rw [h.endStream_eq]
    cases hwanted : s.pending.endStream with
    | false => rfl
    | true =>
    cases hnil : s.pending.rest with
    | nil => exact absurd ⟨hnil, hwanted⟩ honly
    | cons => rfl
  have hserved := h'.served hmax fun hnil => by
    rw [hend]
    exact eq_false_of_ne_true fun hwanted => honly ⟨hrest.symm.trans hnil, hwanted⟩
  subst hframes
  refine ⟨?_, ?_, ?_, hserved.sizes, hserved.once, ?_, ?_⟩
  · rw [← h.advanced.streamId_eq]
    exact hserved.streamIds
  · rw [← hrest]
    exact hserved.conserved
  · have hwin : s'.window = s.window := h.advanced.window_eq
    exact hserved.window.trans hwin.le
  · rw [← hrest, ← hend]
    exact hserved.marked
  rw [← hend]
  exact hserved.ended

/-! ## The connection window -/

section

variable (hmax : 0 < maxFrameSize)
include hmax

theorem sendChunks_total (hnorm : s.pending.Normalized) :
    (payloads (sendChunks sendFrame maxFrameSize rounds conn s).1.frames).length =
      (sendChunks sendFrame maxFrameSize rounds conn s).1.totalDataBytes := by
  induction rounds generalizing conn s with
  | zero => rfl
  | succ rounds ih =>
  by_cases hcan : CanSend conn s
  · obtain ⟨-, -, hfront, -⟩ := chunkSize_le maxFrameSize conn s
    have hnext := @ih (conn - chunkSize maxFrameSize conn s)
      (afterChunk sendFrame s (chunkSize maxFrameSize conn s)) (sendFrame_law.normalized _)
    have hdata : (sendFrame s (chunkSize maxFrameSize conn s)).1.data.length =
        chunkSize maxFrameSize conn s := length_frontData hfront
    rw [sendChunks_of_canSend hnorm hmax hcan]
    simp only [H2Selection.append, singleton_append]
    rw [payloads_cons, length_append, hnext, hdata]
  rw [sendChunks_of_not_canSend hcan]
  rfl

theorem takeTurn_total :
    (payloads (takeTurn sendFrame maxFrameSize config conn s).1.frames).length =
      (takeTurn sendFrame maxFrameSize config conn s).1.totalDataBytes := by
  unfold takeTurn
  split
  · rfl
  exact sendChunks_total hmax (normalized_normalizePending s.pending)

theorem sendRound_total (hconn : 0 < conn) (streams : List H2StreamSendState) :
    (payloads (sendRound sendFrame maxFrameSize config conn streams).1.frames).length =
      (sendRound sendFrame maxFrameSize config conn streams).1.totalDataBytes := by
  induction streams generalizing conn with
  | nil => rfl
  | cons s streams ih =>
  have hturn := @takeTurn_total maxFrameSize conn config s hmax
  rw [sendRound_cons hconn]
  simp only
  split
  · exact hturn
  next hleft =>
  simp only [H2Selection.append]
  rw [payloads_append, length_append, hturn, ih (Nat.pos_of_ne_zero hleft)]

theorem sendRounds_total (streams : List H2StreamSendState) :
    (payloads (sendRounds sendFrame maxFrameSize config rounds conn streams).1.frames).length ≤
      conn := by
  induction rounds generalizing conn streams with
  | zero => exact Nat.zero_le _
  | succ rounds ih =>
  rw [sendRounds]
  split
  · next hconn =>
    obtain ⟨htotal, -, hleft, -⟩ := @sendRound_spec _ _ _ config _ sendFrame_law hmax hconn streams
    have hlen := @sendRound_total _ _ config hmax hconn streams
    simp only
    split
    · rw [hlen, htotal]
      exact Nat.min_le_left _ _
    simp only [H2Selection.append]
    have hrest := @ih (conn - (streams.map (share config 1)).sum)
      (sendRound sendFrame maxFrameSize config conn streams).2.2
    rw [payloads_append, length_append, hlen, htotal, hleft]
    refine (Nat.add_le_add_left hrest _).trans ?_
    omega
  exact Nat.zero_le _

end

theorem payloads_endStreamOnly (streams : List H2StreamSendState) :
    payloads (endStreamOnly (fun id => Http2FrameBuilder.data id [] true) streams) = [] := by
  refine List.flatMap_eq_nil_iff.2 fun frame hframe => ?_
  obtain ⟨s, -, hs⟩ := List.mem_filterMap.1 hframe
  split at hs
  · cases hs
    rfl
  cases hs

/-! ## The loops end by themselves -/

/-- As many rounds as the window has bytes are enough: each takes one at least. -/
theorem sendChunks_enough (hmax : 0 < maxFrameSize) (hnorm : s.pending.Normalized)
    (h : conn ≤ rounds) (h' : conn ≤ rounds') : sendChunks sendFrame maxFrameSize rounds conn s =
      sendChunks sendFrame maxFrameSize rounds' conn s := by
  induction rounds generalizing conn s rounds' with
  | zero =>
    have hcan : ¬ CanSend conn s := fun hcan => Nat.not_lt_of_le h hcan.2.2.1
    rw [sendChunks_of_not_canSend hcan, sendChunks_of_not_canSend hcan]
  | succ rounds ih =>
  by_cases hcan : CanSend conn s
  · have hpos := chunkSize_pos hnorm hmax hcan
    obtain ⟨rounds', rfl⟩ : ∃ k, rounds' = k + 1 :=
      Nat.exists_eq_succ_of_ne_zero (Nat.pos_iff_ne_zero.1 (hcan.2.2.1.trans_le h'))
    have hlt : conn - chunkSize maxFrameSize conn s ≤ rounds := by omega
    have hlt' : conn - chunkSize maxFrameSize conn s ≤ rounds' := by omega
    have hnorm' : (afterChunk sendFrame s (chunkSize maxFrameSize conn s)).pending.Normalized :=
      sendFrame_law.normalized _
    rw [sendChunks_of_canSend hnorm hmax hcan, sendChunks_of_canSend hnorm hmax hcan]
    simp only
    rw [ih hnorm' hlt hlt']
  rw [sendChunks_of_not_canSend hcan, sendChunks_of_not_canSend hcan]

/-- A round that is followed by another has taken some of the window. -/
theorem sendRounds_enough (hmax : 0 < maxFrameSize) (h : conn < rounds)
    (h' : conn < rounds') (streams : List H2StreamSendState) :
    sendRounds sendFrame maxFrameSize config rounds conn streams =
      sendRounds sendFrame maxFrameSize config rounds' conn streams := by
  induction rounds generalizing conn streams rounds' with
  | zero => exact absurd h (Nat.not_lt_zero _)
  | succ rounds ih =>
  obtain ⟨rounds', rfl⟩ : ∃ k, rounds' = k + 1 :=
    Nat.exists_eq_succ_of_ne_zero (Nat.pos_iff_ne_zero.1 ((Nat.zero_le _).trans_lt h'))
  rw [sendRounds, sendRounds]
  by_cases hconn : conn > 0
  · obtain ⟨-, hframes, hleft, -⟩ := @sendRound_spec _ _ _ config _ sendFrame_law hmax hconn streams
    rw [if_pos hconn, if_pos hconn]
    simp only [List.isEmpty_iff, hframes]
    split
    · rfl
    next hmore =>
    have hlt : conn - (streams.map (share config 1)).sum < rounds := by omega
    have hlt' : conn - (streams.map (share config 1)).sum < rounds' := by omega
    rw [hleft, ih hlt hlt']
  rw [if_neg hconn, if_neg hconn]

/-- No count of rounds cuts a loop short, so the loops of the source end, and where these do. -/
structure Ends (maxFrameSize : Nat) (config : H2SchedulerConfig) : Prop where
  turn : ∀ (stream : H2StreamSendState) (conn rounds : Nat), conn ≤ rounds →
    sendChunks sendFrame maxFrameSize rounds conn (credit config stream.normalized) =
      sendChunks sendFrame maxFrameSize conn conn (credit config stream.normalized)
  rounds : ∀ (streams : List H2StreamSendState) (conn rounds : Nat), conn < rounds →
    sendRounds sendFrame maxFrameSize config rounds conn streams =
      sendRounds sendFrame maxFrameSize config (conn + 1) conn streams

/-- A selection ends, keeps to the windows and the frame size, and loses and repeats no byte and no
end of an entry. -/
theorem pickSendableFrames_serves (budget : H2OutboundBudget) (streams : List H2StreamSendState)
    (config : H2SchedulerConfig) :
    (budget.maxFrameSize ≠ 0 → Ends budget.maxFrameSize.toNat config) ∧
      (payloads (pickSendableFrames budget streams config).1.frames).length ≤
        budget.connWindow.toInt.toNat ∧
      Dealt (Served budget.maxFrameSize.toNat) streams
        (pickSendableFrames budget streams config).1.frames
        (pickSendableFrames budget streams config).2 := by
  unfold pickSendableFrames pickSendable
  by_cases hzero : budget.maxFrameSize = 0
  · rw [if_pos hzero]
    refine ⟨fun hne => absurd hzero hne, Nat.zero_le _, .refl (fun s => ?_) streams⟩
    refine ⟨nofun, rfl, Nat.zero_le _, nofun, Nat.zero_le _, ?_, ?_⟩
    · intro front frame back hsplit
      cases front <;> cases hsplit
    refine iff_of_false ?_ ?_
    · rintro ⟨_, hmem, -⟩
      cases hmem
    rintro ⟨hne, -⟩
    exact hne (congrArg UInt32.toNat hzero)
  have hmax : 0 < budget.maxFrameSize.toNat :=
    Nat.pos_of_ne_zero fun h => hzero (UInt32.toNat_inj.1 h)
  rw [if_neg hzero]
  refine ⟨fun _ => ⟨fun stream conn rounds h => ?_, fun streams conn rounds h => ?_⟩, ?_, ?_⟩
  · exact sendChunks_enough hmax (normalized_normalizePending stream.pending) h le_rfl
  · exact sendRounds_enough hmax h (Nat.lt_succ_self conn) streams
  · simp only [H2Selection.append]
    rw [payloads_append, payloads_endStreamOnly]
    exact sendRounds_total hmax _
  have hloops := @sendRounds_emits _ budget.connWindow.toInt.toNat config hmax
    (budget.connWindow.toInt.toNat + 1) (streams.map takeEndStream)
  exact @Dealt.comp _ _ EmitsEnd (Emits _) (Served _) _ _ _ _ _
    (EmitsEnd.served (Nat.pos_iff_ne_zero.1 hmax)) (endStreamOnly_emits streams) hloops

/-- With a frame size of zero nothing is picked, and not the end of a stream without data either. -/
theorem end_not_picked : ¬ ∀ budget streams config, Dealt
    (fun s frames s' => (∃ frame ∈ frames, frame.header.isEndStream = true) ↔
      s.pending.endStream = true ∧ s'.pending.rest = []) streams
    (pickSendableFrames budget streams config).1.frames
    (pickSendableFrames budget streams config).2 := by
  intro h
  obtain ⟨tagged, htagged, -, -, hserves⟩ := h { connWindow := 10, maxFrameSize := 0 }
    [{ pending := { endStream := true }, streamId := 1, streamWindow := 10 }] {}
  have hnone : tagged = [] := List.map_eq_nil_iff.1 htagged
  obtain ⟨s', hs', hiff⟩ := hserves 0 _ rfl
  cases hs'
  obtain ⟨frame, hframe, -⟩ := hiff.2 ⟨rfl, rfl⟩
  rw [hnone] at hframe
  cases hframe

end Http2OutboundScheduler

end Galay.Http2
