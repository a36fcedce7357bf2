import Mathlib.Data.List.Pairwise
import Galay.Lib.Drain
import Galay.Http2.Outbound.SchedulerLemmas

/-!
# The outbound side of the connection core (`kernel/h2_core.cc`)

`enqueueData` makes a scheduler entry of its own for every call, with a deficit and a window of its
own, and `flushOutbound` runs the round robin over all of them. The entries of one stream are
therefore sent in order, before END_STREAM and within one window only if the calls avoid what
`CallOk` excludes.
-/

namespace Galay.Http2

open List
open Lib Lib.RoundRobin

structure H2OutboundQueues where
  controlFrames : List Http2Frame := []
  headerFrames : List Http2Frame := []
  dataStreams : List H2StreamSendState := []
  deriving DecidableEq, Repr

/-- `pickSendableFrames` on the queues: control and header frames first, all of them. -/
def Http2OutboundScheduler.pickSendableQueues (budget : H2OutboundBudget)
    (queues : H2OutboundQueues) (config : H2SchedulerConfig) :
    H2Selection Http2Frame × H2OutboundQueues :=
  let (data, dataStreams) := pickSendableFrames budget queues.dataStreams config
  (⟨queues.controlFrames ++ queues.headerFrames ++ data.frames.map .data, data.totalDataBytes⟩,
    { dataStreams })

def H2PendingData.hasPendingData (pending : H2PendingData) : Bool :=
  pending.endStream || !pending.chunks.isEmpty

structure Http2ConnectionCore where
  outboundQueues : H2OutboundQueues := {}
  outboundReady : Bool := false
  deriving DecidableEq, Repr

namespace Http2ConnectionCore

variable (core : Http2ConnectionCore)

def hasOutboundWork : Bool :=
  !core.outboundQueues.controlFrames.isEmpty || !core.outboundQueues.headerFrames.isEmpty ||
    core.outboundQueues.dataStreams.any (·.pending.hasPendingData)

/-- The entry that `enqueueData` makes. -/
def newEntry (streamId : UInt32) (data : Bytes) (endStream : Bool) (weight : UInt8) :
    H2StreamSendState :=
  { streamId
    streamWindow := Int32.ofNat kDefaultInitialWindowSize.toNat
    pending := { endStream, chunks := if data.isEmpty then [] else [data] }
    weight }

def enqueueData (streamId : UInt32) (data : Bytes) (endStream : Bool)
    (weight : UInt8) : Http2ConnectionCore :=
  { outboundQueues := { core.outboundQueues with
      dataStreams := core.outboundQueues.dataStreams ++ [newEntry streamId data endStream weight] }
    outboundReady := true }

def flushOutbound (budget : H2OutboundBudget)
    (config : H2SchedulerConfig) : H2Selection Http2Frame × Http2ConnectionCore :=
  let (selection, outboundQueues) :=
    Http2OutboundScheduler.pickSendableQueues budget core.outboundQueues config
  let core := { core with outboundQueues }
  (selection, { core with outboundReady := core.hasOutboundWork })

end Http2ConnectionCore

/-! ## Runs -/

inductive OutboundCall
  | enqueueData (streamId : UInt32) (data : Bytes) (endStream : Bool) (weight : UInt8)
  | flushOutbound (budget : H2OutboundBudget) (config : H2SchedulerConfig)
  deriving DecidableEq, Repr

/-- The data that calls ask to send on a stream. -/
def OutboundCall.enqueued (streamId : UInt32) : OutboundCall → Bytes
  | .enqueueData id data _ _ => if id = streamId then data else []
  | .flushOutbound .. => []

/-- The call asks for END_STREAM on a stream. -/
def OutboundCall.asksEnd (streamId : UInt32) : OutboundCall → Bool
  | .enqueueData id _ endStream _ => id = streamId && endStream
  | .flushOutbound .. => false

/-- What a frame tells a stream. -/
def Http2Frame.logOn (streamId : UInt32) : Http2Frame → List (Option UInt8)
  | .data frame => if frame.header.streamId = streamId then frame.log else []
  | _ => []

/-- A core with the calls that were made and the frames that came out. -/
structure OutboundSession where
  core : Http2ConnectionCore := {}
  calls : List OutboundCall := []
  frames : List Http2Frame := []
  deriving DecidableEq, Repr

namespace OutboundSession

variable (session : OutboundSession)

def step (call : OutboundCall) : OutboundSession :=
  match call with
  | .enqueueData streamId data endStream weight =>
    { session with
      core := session.core.enqueueData streamId data endStream weight
      calls := session.calls ++ [call] }
  | .flushOutbound budget config =>
    let (selection, core) := session.core.flushOutbound budget config
    { core, calls := session.calls ++ [call], frames := session.frames ++ selection.frames }

def run (calls : List OutboundCall) : OutboundSession :=
  calls.foldl step session

def streams : List H2StreamSendState :=
  session.core.outboundQueues.dataStreams

/-- All data that was enqueued for a stream, in call order. -/
def enqueued (session : OutboundSession) (streamId : UInt32) : Bytes :=
  session.calls.flatMap (OutboundCall.enqueued streamId)

/-- What was emitted on a stream. -/
def log (streamId : UInt32) : List (Option UInt8) :=
  session.frames.flatMap (Http2Frame.logOn streamId)

def endAsked (streamId : UInt32) : Bool :=
  session.calls.any (OutboundCall.asksEnd streamId)

variable {session}

/-- On every stream the data goes out in order, END_STREAM after all of it, within one window. -/
structure Ordered (session : OutboundSession) (streamId : UInt32) : Prop where
  data_in_order : items (session.log streamId) <+: session.enqueued streamId
  end_last : ∀ front back, session.log streamId = front ++ none :: back →
    items front = session.enqueued streamId
  window : (items (session.log streamId)).length ≤ kDefaultInitialWindowSize.toNat

end OutboundSession

/-! ## When a call is safe -/

namespace H2StreamSendState

/-- Sum over the entries of a stream. -/
def sumOn (f : H2StreamSendState → Nat) (streamId : UInt32) (streams : List H2StreamSendState) : Nat :=
  (streams.map fun s => if s.streamId = streamId then f s else 0).sum

/-- What was taken from the window an entry started with. -/
def used (s : H2StreamSendState) : Nat := kDefaultInitialWindowSize.toNat - s.window

end H2StreamSendState

open H2StreamSendState

/-- No entry that can send overtakes another one of its stream: the other is sent out in its first
turn, or the window does not last until the turn of the later one. -/
def InOrder (config : H2SchedulerConfig) (conn : Nat) (streams : List H2StreamSendState) : Prop :=
  ∀ pre s post, streams = pre ++ s :: post → s.need ≠ 0 → ∀ e ∈ pre,
    e.streamId = s.streamId → e.pending.rest.length ≤ e.share config 1 ∨
      conn ≤ (pre.map (share config 1)).sum

/-- A flush that keeps the order of each stream. An entry with END_STREAM alone has no data
of its stream beside it, and all entries of a stream stay together within one window. -/
structure FlushOk (config : H2SchedulerConfig) (conn : Nat) (streams : List H2StreamSendState) :
    Prop where
  order : InOrder config conn streams
  endOnly : ∀ e ∈ streams, e.pending.endStream = true → e.pending.rest = [] → ∀ e' ∈ streams,
    e'.streamId = e.streamId → e'.pending.rest = []
  window : ∀ streamId, sumOn used streamId streams + min conn (sumOn need streamId streams) ≤
    kDefaultInitialWindowSize.toNat

namespace OutboundSession

/-- Data is not enqueued behind END_STREAM, and flushes keep the order. -/
def CallOk (session : OutboundSession) : OutboundCall → Prop
  | .enqueueData streamId data _ _ => data = [] ∨ session.endAsked streamId = false
  | .flushOutbound budget config =>
    budget.maxFrameSize = 0 ∨ FlushOk config budget.connWindow.toInt.toNat session.streams

/-- Every call of a run is safe in the state it is made in. -/
def AllOk (session : OutboundSession) : List OutboundCall → Prop
  | [] => True
  | call :: calls => session.CallOk call ∧ (session.step call).AllOk calls

end OutboundSession

/-! ## The log of a turn -/

namespace Http2OutboundScheduler

open H2PendingData

variable {maxFrameSize conn : Nat} {config : H2SchedulerConfig} {stream : H2StreamSendState}
  {streams : List H2StreamSendState} {id : UInt32}

variable (id)

/-- What DATA frames tell a stream. -/
def framesOn (frames : List Http2DataFrame) : List (Option UInt8) :=
  frames.flatMap fun frame => if frame.header.streamId = id then frame.log else []

/-- The data an entry still has for a stream. -/
def restOn (s : H2StreamSendState) : Bytes :=
  if s.streamId = id then s.pending.rest else []

/-- The data all entries together still have for a stream. -/
def pendingOn (streams : List H2StreamSendState) : Bytes := streams.flatMap (restOn id)

theorem framesOn_append (l l' : List Http2DataFrame) :
    framesOn id (l ++ l') = framesOn id l ++ framesOn id l' := flatMap_append ..

variable {id}

theorem framesOn_eq_nil
    (h : ∀ frame ∈ frames, frame.header.streamId ≠ id) : framesOn id frames = [] := by
  refine List.flatMap_eq_nil_iff.2 fun frame hmem => ?_
  rw [if_neg (h frame hmem)]

/-- One frame takes its bytes from the front of the data, and ends the stream at the end of it. -/
theorem sendFrame_drains (hfront : n ≤ stream.pending.frontPendingSize) :
    Drains (framesOn id [(sendFrame stream n).1]) (restOn id stream)
      (restOn id (afterChunk sendFrame stream n)) := by
  have hrest : (afterChunk sendFrame stream n).pending.rest = stream.pending.rest.drop n :=
    sendFrame_law.rest_eq hfront
  have hid : (afterChunk sendFrame stream n).streamId = stream.streamId :=
    sendFrame_law.streamId stream n
  have hframe : framesOn id [(sendFrame stream n).1] =
      if stream.streamId = id then (sendFrame stream n).1.log else [] := append_nil _
  rw [hframe]
  unfold restOn
  rw [hid, hrest]
  split
  · have hlog : (sendFrame stream n).1.log = (stream.pending.rest.take n).map some ++
        if stream.pending.endStream && (stream.pending.advance n).chunks.isEmpty then [none]
        else [] := by
      rw [← frontData_eq hfront]
      exact Http2FrameBuilder.log_data ..
    have hpush := Drains.push (stream.pending.rest.take n) (stream.pending.rest.drop n)
    rw [take_append_drop] at hpush
    rw [hlog]
    refine hpush.trans ?_
    split
    · next hend =>
      rw [Bool.and_eq_true, List.isEmpty_iff] at hend
      have hnorm : (stream.pending.advance n).Normalized := normalized_normalizePending _
      rw [← rest_advance hfront, hnorm.rest_eq_nil.2 hend.2]
      exact .close
    exact .nil _
  exact .nil _

theorem sendFrame_end (h : none ∈ framesOn id [(sendFrame stream n).1]) :
    stream.pending.endStream = true := by
  have hlog : none ∈ (sendFrame stream n).1.log := by
    have hframe : framesOn id [(sendFrame stream n).1] =
        if stream.streamId = id then (sendFrame stream n).1.log else [] := append_nil _
    rw [hframe] at h
    split at h
    · exact h
    cases h
  have hlog' : (sendFrame stream n).1.log = (stream.pending.frontData n).map some ++
      if stream.pending.endStream && (stream.pending.advance n).chunks.isEmpty then [none] else [] :=
    Http2FrameBuilder.log_data ..
  rw [hlog', mem_append] at hlog
  rcases hlog with hdata | hend
  · obtain ⟨b, -, hb⟩ := List.mem_map.1 hdata
    cases hb
  split at hend
  · next hand => exact (Bool.and_eq_true_iff.1 hand).1
  cases hend

/-- What the frames of an entry say about it. -/
structure TurnLog (id : UInt32) (s s' : H2StreamSendState) (frames : List Http2DataFrame) : Prop where
  drains : Drains (framesOn id frames) (restOn id s) (restOn id s')
  streamId : ∀ frame ∈ frames, frame.header.streamId = s.streamId
  end_of : none ∈ framesOn id frames → s.pending.endStream = true

theorem TurnLog.idle (h : restOn id s = restOn id s') : TurnLog id s s' [] := by
  refine ⟨?_, ?_, ?_⟩
  · rw [h]
    exact .nil _
  · intro frame hmem
    cases hmem
  intro hmem
  cases hmem

theorem sendChunks_log (hmax : 0 < maxFrameSize) {rounds : Nat} (hnorm : stream.pending.Normalized) :
    TurnLog id stream (sendChunks sendFrame maxFrameSize rounds conn stream).2.2
      (sendChunks sendFrame maxFrameSize rounds conn stream).1.frames := by
  induction rounds generalizing conn stream with
  | zero => exact .idle rfl
  | succ rounds ih =>
  by_cases hcan : CanSend conn stream
  · obtain ⟨-, hwin, hfront, -⟩ := chunkSize_le maxFrameSize conn stream
    rw [sendChunks_of_canSend hnorm hmax hcan]
    generalize chunkSize maxFrameSize conn stream = chunk at *
    have hadv := sendFrame_law.advanced hfront hwin
    have hnext := @ih (conn - chunk) (afterChunk sendFrame stream chunk)
      (sendFrame_law.normalized chunk)
    refine ⟨?_, ?_, ?_⟩
    · show Drains (framesOn id ([_] ++ _)) _ _
      rw [framesOn_append]
      exact (sendFrame_drains hfront).trans hnext.drains
    · intro frame hmem
      rcases List.mem_cons.1 hmem with rfl | hmem
      · rfl
      exact (hnext.streamId frame hmem).trans hadv.streamId_eq
    intro hend
    replace hend : none ∈ framesOn id ([_] ++ _) := hend
    rw [framesOn_append, mem_append] at hend
    rcases hend with hend | hend
    · exact sendFrame_end hend
    exact hadv.endStream_of (hnext.end_of hend)
  rw [sendChunks_of_not_canSend hcan]
  exact .idle rfl

theorem restOn_advanced_zero (h : Advanced 0 s s') : restOn id s = restOn id s' := by
  unfold restOn
  rw [h.streamId_eq, h.rest_eq, drop_zero]

theorem advanced_credit (config : H2SchedulerConfig) (s : H2StreamSendState) :
    Advanced 0 s (credit config s.normalized) :=
  ⟨rest_normalizePending _, rfl, rfl, rfl, normalizeChunks_suffix _ _, fun h => h⟩

theorem takeTurn_log (hmax : 0 < maxFrameSize) :
    TurnLog id stream (takeTurn sendFrame maxFrameSize config conn stream).2.2
      (takeTurn sendFrame maxFrameSize config conn stream).1.frames := by
  unfold takeTurn
  split
  · refine .idle ?_
    show restOn id stream = if stream.streamId = id then stream.pending.normalizePending.rest else []
    rw [rest_normalizePending]
    rfl
  obtain ⟨hdrains, hid, hend⟩ := @sendChunks_log maxFrameSize conn
    (credit config stream.normalized) id hmax conn (normalized_normalizePending stream.pending)
  rw [← restOn_advanced_zero (advanced_credit config stream)] at hdrains
  exact ⟨hdrains, hid, hend⟩

/-- Only an entry of the stream with something to send speaks. -/
theorem takeTurn_log_ne (hmax : 0 < maxFrameSize)
    (hne : framesOn id (takeTurn sendFrame maxFrameSize config conn stream).1.frames ≠ []) :
    stream.streamId = id ∧ stream.need ≠ 0 ∧ 0 < conn := by
  have hlog := @takeTurn_log maxFrameSize conn config stream id hmax
  obtain ⟨-, hframes, -⟩ := takeTurn_spec stream config sendFrame_law hmax conn
  refine ⟨?_, ?_, ?_⟩
  · by_contra hid
    exact hne (framesOn_eq_nil fun frame hmem => by rw [hlog.streamId frame hmem]; exact hid)
  · intro hneed
    rw [share_of_need_eq_zero hneed, Nat.min_zero] at hframes
    exact hne (by rw [hframes.2 rfl]; rfl)
  by_contra hconn
  exact hne (by rw [hframes.2 (by omega)]; rfl)

/-! ## The log of a round -/

theorem sendRound_log_ne (hmax : 0 < maxFrameSize) (hconn : 0 < conn)
    (hne : framesOn id (sendRound sendFrame maxFrameSize config conn streams).1.frames ≠ []) :
    ∃ pre s post, streams = pre ++ s :: post ∧ s.streamId = id ∧ s.need ≠ 0 ∧
      (pre.map (share config 1)).sum < conn := by
  induction streams generalizing conn with
  | nil => exact absurd rfl hne
  | cons stream streams ih =>
  obtain ⟨-, -, hleft, -⟩ := takeTurn_spec stream config sendFrame_law hmax conn
  rw [sendRound_cons hconn] at hne
  by_cases hturn :
      framesOn id (takeTurn sendFrame maxFrameSize config conn stream).1.frames = []
  · simp only at hne
    split at hne
    · exact absurd hturn hne
    next hpos =>
    simp only [H2Selection.append, framesOn_append, hturn, nil_append] at hne
    obtain ⟨pre, s, post, rfl, hid, hneed, hsum⟩ := ih (Nat.pos_of_ne_zero hpos) hne
    refine ⟨stream :: pre, s, post, rfl, hid, hneed, ?_⟩
    rw [map_cons, sum_cons]
    omega
  obtain ⟨hid, hneed, -⟩ := takeTurn_log_ne hmax hturn
  exact ⟨[], stream, streams, rfl, hid, hneed, hconn⟩

theorem sendRound_log_end (hmax : 0 < maxFrameSize) (hconn : 0 < conn)
    (hend : none ∈ framesOn id (sendRound sendFrame maxFrameSize config conn streams).1.frames) :
    ∃ s ∈ streams, s.streamId = id ∧ s.pending.endStream = true := by
  induction streams generalizing conn with
  | nil => cases hend
  | cons stream streams ih =>
  rw [sendRound_cons hconn] at hend
  by_cases hturn :
      none ∈ framesOn id (takeTurn sendFrame maxFrameSize config conn stream).1.frames
  · have hid := takeTurn_log_ne hmax (ne_nil_of_mem hturn)
    exact ⟨stream, mem_cons_self .., hid.1, (takeTurn_log hmax).end_of hturn⟩
  simp only at hend
  split at hend
  · exact absurd hend hturn
  next hpos =>
  simp only [H2Selection.append, framesOn_append, mem_append] at hend
  obtain ⟨s, hmem, hs⟩ := ih (Nat.pos_of_ne_zero hpos) (hend.resolve_left hturn)
  exact ⟨s, mem_cons_of_mem _ hmem, hs⟩

/-- No data of a stream stands behind an entry that asks for its end. -/
def NoDataAfterEnd (streams : List H2StreamSendState) : Prop :=
  streams.Pairwise fun e e' => e.pending.endStream = true → e'.streamId = e.streamId →
    e'.pending.rest = []

theorem exists_of_forall₂ {α β : Type} {R : α → β → Prop} {l : List α} {l' : List β} {b : β}
    (h : List.Forall₂ R l l') (hmem : b ∈ l') : ∃ a ∈ l, R a b := by
  induction h with
  | nil => cases hmem
  | cons hhead _ ih =>
  rcases List.mem_cons.1 hmem with rfl | hmem
  · exact ⟨_, mem_cons_self .., hhead⟩
  obtain ⟨a, ha, hab⟩ := ih hmem
  exact ⟨a, mem_cons_of_mem _ ha, hab⟩

theorem pendingOn_eq_nil (h : ∀ s ∈ streams, s.streamId = id → s.pending.rest = []) :
    pendingOn id streams = [] := by
  refine List.flatMap_eq_nil_iff.2 fun s hmem => ?_
  unfold restOn
  split
  · next hid => exact h s hmem hid
  rfl

theorem sendRound_drains (hmax : 0 < maxFrameSize) (hconn : 0 < conn)
    (horder : InOrder config conn streams) (hafter : NoDataAfterEnd streams) :
    Drains (framesOn id (sendRound sendFrame maxFrameSize config conn streams).1.frames)
      (pendingOn id streams)
      (pendingOn id (sendRound sendFrame maxFrameSize config conn streams).2.2) := by
  induction streams generalizing conn with
  | nil => exact .nil _
  | cons stream streams ih =>
  obtain ⟨-, -, hleft, -, hadv, -⟩ := takeTurn_spec stream config sendFrame_law hmax conn
  obtain ⟨hhead, htail⟩ := List.pairwise_cons.1 hafter
  have hturn : Drains
      (framesOn id (takeTurn sendFrame maxFrameSize config conn stream).1.frames)
      (restOn id stream ++ pendingOn id streams)
      (restOn id (takeTurn sendFrame maxFrameSize config conn stream).2.2 ++
        pendingOn id streams) := by
    refine (takeTurn_log hmax).drains.extend fun hend => pendingOn_eq_nil fun s hmem hid => ?_
    have hmine := takeTurn_log_ne hmax (ne_nil_of_mem hend)
    exact hhead s hmem ((takeTurn_log hmax).end_of hend) (hid.trans hmine.1.symm)
  rw [sendRound_cons hconn]
  simp only
  split
  · exact hturn
  next hpos =>
  have hcut : stream.share config 1 < conn := by omega
  rw [Nat.min_eq_right (Nat.le_of_lt hcut)] at hleft hadv
  have htailOrder : InOrder config (takeTurn sendFrame maxFrameSize config conn stream).2.1
      streams := by
    intro pre s post heq hneed e hmem hid
    have hpair := horder (stream :: pre) s post (by rw [heq]; rfl) hneed e
      (mem_cons_of_mem _ hmem) hid
    rw [map_cons, sum_cons] at hpair
    exact hpair.imp_right fun hle => by omega
  have hrest := ih (Nat.pos_of_ne_zero hpos) htailOrder htail
  simp only [H2Selection.append, framesOn_append]
  refine hturn.trans (hrest.prepend ?_)
  -- an entry that speaks after this one means that this one is done
  rw [or_iff_not_imp_left]
  intro hne
  obtain ⟨pre, s, post, rfl, hid, hneed, hsum⟩ :=
    sendRound_log_ne hmax (Nat.pos_of_ne_zero hpos) hne
  unfold restOn
  split
  · next hsame =>
    rw [hadv.streamId_eq] at hsame
    have hdone := horder (stream :: pre) s post rfl hneed stream (mem_cons_self ..)
      (hsame.trans hid.symm)
    rw [map_cons, sum_cons] at hdone
    rw [hadv.rest_eq]
    exact drop_eq_nil_of_le (hdone.resolve_right (by omega))
  rfl

/-! ## The log of a flush -/

section Forall₂

variable {R : H2StreamSendState → H2StreamSendState → Prop} {streams' : List H2StreamSendState}

theorem NoDataAfterEnd.of_forall₂ (h : NoDataAfterEnd streams)
    (hall : List.Forall₂ (fun s s' => ∃ m, m ≤ s.need ∧ Advanced m s s') streams streams') :
    NoDataAfterEnd streams' := by
  induction hall with
  | nil => exact .nil
  | @cons s s' streams streams' hs hall ih =>
  obtain ⟨hhead, htail⟩ := List.pairwise_cons.1 h
  refine List.pairwise_cons.2 ⟨fun e' hmem hend hid => ?_, ih htail⟩
  obtain ⟨e, hmem', n, -, hadv'⟩ := exists_of_forall₂ hall hmem
  obtain ⟨m, -, hadv⟩ := hs
  rw [hadv'.streamId_eq, hadv.streamId_eq] at hid
  rw [hadv'.rest_eq, hhead e hmem' (hadv.endStream_of hend) hid, drop_nil]

/-- After a round that the window did not cut, no entry is behind another one with data. -/
theorem InOrder.next (h : InOrder config conn streams) (hlt : (streams.map (share config 1)).sum < conn)
    (hall : List.Forall₂ (Turned config) streams streams') (conn' : Nat) :
    InOrder config conn' streams' := by
  intro pre' s' post' heq hneed e' hmem hid
  rw [heq] at hall
  have hpre := forall₂_take_append _ _ _ hall
  obtain ⟨s, post, hs, hpost, hdrop⟩ :=
    List.forall₂_cons_right_iff.1 (forall₂_drop_append _ _ _ hall)
  have hsplit := take_append_drop pre'.length streams
  rw [hdrop] at hsplit
  obtain ⟨e, hmem', he⟩ := exists_of_forall₂ hpre hmem
  have hneed' := hs.advanced.need_eq
  rw [he.advanced.streamId_eq, hs.advanced.streamId_eq] at hid
  have hdone := h _ s post hsplit.symm (by omega) e hmem' hid
  rw [← hsplit, sum_split] at hlt
  left
  rw [he.advanced.rest_eq, drop_eq_nil_of_le (hdone.resolve_right (by omega))]
  exact Nat.zero_le _

end Forall₂

theorem sendRounds_log (hmax : 0 < maxFrameSize) {rounds : Nat}
    (horder : InOrder config conn streams) (hafter : NoDataAfterEnd streams) :
    Drains (framesOn id (sendRounds sendFrame maxFrameSize config rounds conn streams).1.frames)
        (pendingOn id streams)
        (pendingOn id (sendRounds sendFrame maxFrameSize config rounds conn streams).2) ∧
      (none ∈ framesOn id (sendRounds sendFrame maxFrameSize config rounds conn streams).1.frames →
        ∃ s ∈ streams, s.streamId = id ∧ s.pending.endStream = true) := by
  induction rounds generalizing conn streams with
  | zero => exact ⟨.nil _, by rintro ⟨⟩⟩
  | succ rounds ih =>
  rw [sendRounds]
  split
  · next hconn =>
    have hround := @sendRound_drains maxFrameSize conn config streams id hmax hconn horder hafter
    have hend := @sendRound_log_end maxFrameSize conn config streams id hmax hconn
    obtain ⟨-, -, hleft, hturned⟩ :=
      @sendRound_spec _ _ _ config _ sendFrame_law hmax hconn streams
    have hall : List.Forall₂ _ streams
        (sendRound sendFrame maxFrameSize config conn streams).2.2 :=
      (stepRel_advanced sendFrame_law).sendRound sendFrame_law hmax hconn streams
    simp only
    split
    · exact ⟨hround, hend⟩
    rcases Nat.lt_or_ge (streams.map (share config 1)).sum conn with hlt | hge
    · obtain ⟨hdrains, hlast⟩ := ih (InOrder.next horder hlt (hturned (Nat.le_of_lt hlt)) _)
        (hafter.of_forall₂ hall)
      simp only [H2Selection.append, framesOn_append, mem_append]
      refine ⟨hround.trans hdrains, fun hmem => hmem.elim hend fun hmem => ?_⟩
      obtain ⟨s', hs', hid, hflag⟩ := hlast hmem
      obtain ⟨s, hs, m, -, hadv⟩ := exists_of_forall₂ hall hs'
      exact ⟨s, hs, hadv.streamId_eq.symm.trans hid, hadv.endStream_of hflag⟩
    -- the window is used up, so there is no further round
    have hstop : ∀ streams, sendRounds sendFrame maxFrameSize config rounds 0 streams =
        ({}, streams) := by
      intro streams
      cases rounds <;> rfl
    rw [hleft, Nat.sub_eq_zero_of_le hge, hstop]
    simp only [H2Selection.append, append_nil]
    exact ⟨hround, hend⟩
  exact ⟨.nil _, by rintro ⟨⟩⟩

theorem endStreamOnly_mem
    (hmem : frame ∈ endStreamOnly (fun id => Http2FrameBuilder.data id [] true) streams) :
    ∃ s ∈ streams, frame = Http2FrameBuilder.data s.streamId [] true ∧
      s.pending.endStream = true ∧ s.pending.rest = [] := by
  obtain ⟨s, hs, hsome⟩ := List.mem_filterMap.1 hmem
  split at hsome
  · next hend =>
    unfold shouldSendEndStreamOnly at hend
    rw [Bool.and_eq_true, List.isEmpty_iff] at hend
    refine ⟨s, hs, (Option.some.inj hsome).symm, hend.1, ?_⟩
    rw [← rest_normalizePending]
    exact (normalized_normalizePending _).rest_eq_nil.2 hend.2
  cases hsome

/-- The first loop sends END_STREAM only, and only where nothing is pending. -/
theorem endStreamOnly_drains
    (honly : ∀ e ∈ streams, e.pending.endStream = true → e.pending.rest = [] → ∀ e' ∈ streams,
      e'.streamId = e.streamId → e'.pending.rest = []) :
    Drains (framesOn id (endStreamOnly (fun id => Http2FrameBuilder.data id [] true) streams))
        (pendingOn id streams) (pendingOn id (streams.map takeEndStream)) ∧
      (none ∈ framesOn id (endStreamOnly (fun id => Http2FrameBuilder.data id [] true) streams) →
        ∃ s ∈ streams, s.streamId = id ∧ s.pending.endStream = true) := by
  have hpend : pendingOn id (streams.map takeEndStream) = pendingOn id streams := by
    unfold pendingOn
    rw [flatMap_map]
    exact flatMap_congr fun s _ => (restOn_advanced_zero (takeEndStream_advanced s)).symm
  have hends : ∀ frame ∈ endStreamOnly (fun id => Http2FrameBuilder.data id [] true) streams,
      frame.log = [none] := by
    intro frame hmem
    obtain ⟨s, -, rfl, -⟩ := endStreamOnly_mem hmem
    exact Http2FrameBuilder.log_data ..
  have hspoken : none ∈ framesOn id
      (endStreamOnly (fun id => Http2FrameBuilder.data id [] true) streams) →
      ∃ s ∈ streams, s.streamId = id ∧ s.pending.endStream = true ∧ s.pending.rest = [] := by
    intro hmem
    obtain ⟨frame, hframe, hlog⟩ := List.mem_flatMap.1 hmem
    obtain ⟨s, hs, rfl, hflag, hrest⟩ := endStreamOnly_mem hframe
    split at hlog
    · next hid => exact ⟨s, hs, hid, hflag, hrest⟩
    cases hlog
  rw [hpend]
  generalize endStreamOnly (fun id => Http2FrameBuilder.data id [] true) streams = frames at *
  refine ⟨?_, fun hmem => ?_⟩
  · by_cases hmem : none ∈ framesOn id frames
    · obtain ⟨e, he, rfl, hflag, hrest⟩ := hspoken hmem
      rw [pendingOn_eq_nil (honly e he hflag hrest)]
      clear hspoken hmem hpend
      induction frames with
      | nil => exact .nil _
      | cons frame frames ih =>
      have htail := ih fun frame hmem => hends frame (mem_cons_of_mem _ hmem)
      show Drains ((if frame.header.streamId = e.streamId then frame.log else []) ++
        framesOn e.streamId frames) [] []
      rw [hends frame (mem_cons_self ..)]
      split
      · exact Drains.close.trans htail
      exact htail
    have hnil : framesOn id frames = [] := by
      refine List.flatMap_eq_nil_iff.2 fun frame hframe => ?_
      split
      · next hid =>
        refine absurd (List.mem_flatMap.2 ⟨frame, hframe, ?_⟩) hmem
        rw [if_pos hid, hends frame hframe]
        exact mem_cons_self ..
      rfl
    rw [hnil]
    exact .nil _
  obtain ⟨s, hs, hid, hflag, -⟩ := hspoken hmem
  exact ⟨s, hs, hid, hflag⟩

theorem InOrder.map_takeEndStream (h : InOrder config conn streams) :
    InOrder config conn (streams.map takeEndStream) := by
  intro pre' s' post' heq hneed e' hmem hid
  obtain ⟨pre, tail, rfl, rfl, htail⟩ := List.map_eq_append_iff.1 heq
  obtain ⟨s, post, rfl, rfl, rfl⟩ := List.map_eq_cons_iff.1 htail
  obtain ⟨e, hmem', rfl⟩ := List.mem_map.1 hmem
  have hs := takeEndStream_advanced s
  have he := takeEndStream_advanced e
  rw [hs.streamId_eq, he.streamId_eq] at hid
  rw [hs.need_eq] at hneed
  have hpair := h pre s post rfl hneed e hmem' hid
  rw [he.rest_eq, drop_zero, share_takeEndStream, map_map]
  rw [show share config 1 ∘ takeEndStream = share config 1 from
    funext fun s => share_takeEndStream 1 s]
  exact hpair

theorem forall₂_takeEndStream (streams : List H2StreamSendState) :
    List.Forall₂ (fun s s' => ∃ m, m ≤ s.need ∧ Advanced m s s') streams
      (streams.map takeEndStream) := by
  rw [forall₂_map_right_iff, forall₂_same]
  exact fun s _ => ⟨0, Nat.zero_le _, takeEndStream_advanced s⟩

theorem pickSendableFrames_log {budget : H2OutboundBudget}
    (hok : budget.maxFrameSize = 0 ∨ FlushOk config budget.connWindow.toInt.toNat streams)
    (hafter : NoDataAfterEnd streams) :
    Drains (framesOn id (pickSendableFrames budget streams config).1.frames) (pendingOn id streams)
        (pendingOn id (pickSendableFrames budget streams config).2) ∧
      (none ∈ framesOn id (pickSendableFrames budget streams config).1.frames →
        ∃ s ∈ streams, s.streamId = id ∧ s.pending.endStream = true) := by
  unfold pickSendableFrames pickSendable
  split
  · exact ⟨.nil _, fun h => nomatch h⟩
  next hne =>
  have hmax : 0 < budget.maxFrameSize.toNat :=
    Nat.pos_of_ne_zero fun h => hne (UInt32.toNat_inj.1 h)
  have hok := hok.resolve_left hne
  obtain ⟨hdrains, hend⟩ := @endStreamOnly_drains streams id hok.endOnly
  obtain ⟨hdrains', hend'⟩ := @sendRounds_log budget.maxFrameSize.toNat
    budget.connWindow.toInt.toNat config (streams.map takeEndStream) id hmax
    (budget.connWindow.toInt.toNat + 1) (InOrder.map_takeEndStream hok.order)
    (hafter.of_forall₂ (forall₂_takeEndStream streams))
  simp only [H2Selection.append, framesOn_append, mem_append]
  refine ⟨hdrains.trans hdrains', fun hmem => hmem.elim hend fun hmem => ?_⟩
  obtain ⟨s', hs', hid, hflag⟩ := hend' hmem
  obtain ⟨s, hs, m, -, hadv⟩ := exists_of_forall₂ (forall₂_takeEndStream streams) hs'
  exact ⟨s, hs, hadv.streamId_eq.symm.trans hid, hadv.endStream_of hflag⟩

/-! ## The windows of a flush -/

theorem pickSendableFrames_forall₂ (budget : H2OutboundBudget) (config : H2SchedulerConfig)
    (streams : List H2StreamSendState) :
    List.Forall₂ (fun s s' => ∃ m, m ≤ s.need ∧ Advanced m s s') streams
      (pickSendableFrames budget streams config).2 := by
  unfold pickSendableFrames pickSendable
  split
  · exact List.forall₂_same.2 fun s _ => ⟨0, Nat.zero_le _, .refl s⟩
  next hne =>
  have hmax : 0 < budget.maxFrameSize.toNat :=
    Nat.pos_of_ne_zero fun h => hne (UInt32.toNat_inj.1 h)
  have hrel := stepRel_advanced sendFrame_law
  exact hrel.forall₂_trans (forall₂_takeEndStream streams)
    (hrel.sendRounds sendFrame_law hmax _ _ _)

/-- All the data that is left. -/
def restLength (streams : List H2StreamSendState) : Nat :=
  (streams.map fun s => s.pending.rest.length).sum

theorem sendRound_restLength (hmax : 0 < maxFrameSize) (hconn : 0 < conn)
    (streams : List H2StreamSendState) :
    (sendRound sendFrame maxFrameSize config conn streams).2.1 ≤ conn ∧
      restLength streams + (sendRound sendFrame maxFrameSize config conn streams).2.1 ≤
        restLength (sendRound sendFrame maxFrameSize config conn streams).2.2 + conn := by
  induction streams generalizing conn with
  | nil => exact ⟨Nat.le_refl _, Nat.le_refl _⟩
  | cons stream streams ih =>
  obtain ⟨-, -, hleft, -, hadv, -⟩ := takeTurn_spec stream config sendFrame_law hmax conn
  have hlen := congrArg List.length hadv.rest_eq
  rw [length_drop] at hlen
  rw [sendRound_cons hconn]
  unfold restLength at ih ⊢
  simp only [map_cons, sum_cons]
  split
  · simp only [map_cons, sum_cons]
    omega
  next hpos =>
  obtain ⟨hle, hsum⟩ := ih (Nat.pos_of_ne_zero hpos)
  simp only [map_cons, sum_cons]
  omega

theorem sendRounds_restLength (hmax : 0 < maxFrameSize) (rounds conn : Nat)
    (streams : List H2StreamSendState) :
    restLength streams ≤
      restLength (sendRounds sendFrame maxFrameSize config rounds conn streams).2 + conn := by
  induction rounds generalizing conn streams with
  | zero => exact Nat.le_add_right _ _
  | succ rounds ih =>
  rw [sendRounds]
  split
  · next hconn =>
    obtain ⟨hle, hsum⟩ := @sendRound_restLength _ _ config hmax hconn streams
    simp only
    split
    · show restLength streams ≤
        restLength (sendRound sendFrame maxFrameSize config conn streams).2.2 + conn
      omega
    have hnext := ih (sendRound sendFrame maxFrameSize config conn streams).2.1
      (sendRound sendFrame maxFrameSize config conn streams).2.2
    have hboth : restLength streams ≤ restLength (sendRounds sendFrame maxFrameSize config rounds
        (sendRound sendFrame maxFrameSize config conn streams).2.1
        (sendRound sendFrame maxFrameSize config conn streams).2.2).2 + conn := by omega
    exact hboth
  exact Nat.le_add_right _ _

theorem pickSendableFrames_restLength (budget : H2OutboundBudget) (config : H2SchedulerConfig)
    (streams : List H2StreamSendState) :
    restLength streams ≤ restLength (pickSendableFrames budget streams config).2 +
      budget.connWindow.toInt.toNat := by
  unfold pickSendableFrames pickSendable
  split
  · exact Nat.le_add_right _ _
  next hne =>
  have hmax : 0 < budget.maxFrameSize.toNat :=
    Nat.pos_of_ne_zero fun h => hne (UInt32.toNat_inj.1 h)
  have hfirst : restLength (streams.map takeEndStream) = restLength streams := by
    unfold restLength
    rw [map_map]
    congr 1
    refine map_congr_left fun s _ => ?_
    show (takeEndStream s).pending.rest.length = s.pending.rest.length
    rw [(takeEndStream_advanced s).rest_eq, drop_zero]
  have hrounds := @sendRounds_restLength _ config hmax (budget.connWindow.toInt.toNat + 1)
    budget.connWindow.toInt.toNat (streams.map takeEndStream)
  rw [hfirst] at hrounds
  exact hrounds

/-- What leaves the entries of a stream is taken from their windows. -/
theorem accounting (id : UInt32)
    (hall : List.Forall₂ (fun s s' => ∃ m, m ≤ s.need ∧ Advanced m s s') streams streams')
    (hwin : ∀ s ∈ streams, s.window ≤ kDefaultInitialWindowSize.toNat) :
    (pendingOn id streams').length + sumOn used id streams' =
        (pendingOn id streams).length + sumOn used id streams ∧
      (pendingOn id streams).length ≤ (pendingOn id streams').length + sumOn need id streams ∧
      (pendingOn id streams).length + restLength streams' ≤
        (pendingOn id streams').length + restLength streams := by
  induction hall with
  | nil => exact ⟨rfl, Nat.le_refl _, Nat.le_refl _⟩
  | @cons s s' streams streams' hs hall ih =>
  obtain ⟨m, hm, hadv⟩ := hs
  obtain ⟨hused, hneed, hrest⟩ := ih fun s hmem => hwin s (mem_cons_of_mem _ hmem)
  have hlen := congrArg List.length hadv.rest_eq
  have hwinlen := hadv.window_eq
  have hmwin := hm.trans (need_le_window s)
  have hmrest := hm.trans (need_le_rest s)
  have hswin := hwin s (mem_cons_self ..)
  rw [length_drop] at hlen
  unfold pendingOn sumOn restLength restOn used at *
  simp only [flatMap_cons, length_append, map_cons, sum_cons, hadv.streamId_eq]
  split
  · refine ⟨by omega, by omega, by omega⟩
  simp only [length_nil]
  refine ⟨by omega, by omega, by omega⟩

end Http2OutboundScheduler

/-! ## Runs keep the order -/

namespace OutboundSession

open Http2OutboundScheduler Http2ConnectionCore

variable {session : OutboundSession}

/-- The invariant of safe runs. -/
structure Inv (session : OutboundSession) : Prop where
  no_control : session.core.outboundQueues.controlFrames = []
  no_headers : session.core.outboundQueues.headerFrames = []
  drains : ∀ id, Drains (session.log id) (session.enqueued id) (pendingOn id session.streams)
  sent_asked : ∀ id, none ∈ session.log id → session.endAsked id = true
  end_asked : ∀ s ∈ session.streams, s.pending.endStream = true → session.endAsked s.streamId = true
  after_end : NoDataAfterEnd session.streams
  window_le : ∀ s ∈ session.streams, s.window ≤ kDefaultInitialWindowSize.toNat
  used_eq : ∀ id, (items (session.log id)).length = sumOn used id session.streams
  sent_le : ∀ id, (items (session.log id)).length ≤ kDefaultInitialWindowSize.toNat

theorem Inv.ordered (H : session.Inv) (id : UInt32) : session.Ordered id :=
  ⟨(H.drains id).isPrefix, (H.drains id).end_last, H.sent_le id⟩

theorem inv_init : Inv {} where
  no_control := rfl
  no_headers := rfl
  drains _ := .nil _
  sent_asked _ h := nomatch h
  end_asked _ h := nomatch h
  after_end := .nil
  window_le _ h := nomatch h
  used_eq _ := rfl
  sent_le _ := Nat.zero_le _

theorem endAsked_append (session : OutboundSession) (call : OutboundCall) (id : UInt32)
    {core : Http2ConnectionCore} {frames : List Http2Frame} :
    endAsked ⟨core, session.calls ++ [call], frames⟩ id =
      (session.endAsked id || call.asksEnd id) := by
  unfold endAsked
  rw [any_append, any_cons, any_nil, Bool.or_false]

theorem enqueued_append (session : OutboundSession) (call : OutboundCall) (id : UInt32)
    {core : Http2ConnectionCore} {frames : List Http2Frame} :
    enqueued ⟨core, session.calls ++ [call], frames⟩ id =
      session.enqueued id ++ call.enqueued id := by
  unfold enqueued
  rw [flatMap_append, flatMap_cons, flatMap_nil, append_nil]

theorem rest_newEntry (streamId : UInt32) (data : Bytes) (endStream : Bool) (weight : UInt8) :
    (newEntry streamId data endStream weight).pending.rest = data := by
  unfold newEntry H2PendingData.rest
  cases data with
  | nil => rfl
  | cons b data => exact append_nil _

theorem window_newEntry (streamId : UInt32) (data : Bytes) (endStream : Bool) (weight : UInt8) :
    (newEntry streamId data endStream weight).window = kDefaultInitialWindowSize.toNat := by
  show (Int32.ofNat kDefaultInitialWindowSize.toNat).toInt.toNat = kDefaultInitialWindowSize.toNat
  decide

section

variable (H : session.Inv)
include H

theorem inv_enqueueData {streamId : UInt32} {weight : UInt8}
    (hok : session.CallOk (.enqueueData streamId data endStream weight)) :
    (session.step (.enqueueData streamId data endStream weight)).Inv := by
  have hrest := rest_newEntry streamId data endStream weight
  have hstreams : (session.step (.enqueueData streamId data endStream weight)).streams =
      session.streams ++ [newEntry streamId data endStream weight] := rfl
  have hasked : ∀ id, (session.step (.enqueueData streamId data endStream weight)).endAsked id =
      (session.endAsked id || OutboundCall.asksEnd id (.enqueueData streamId data endStream weight)) :=
    fun id => endAsked_append session _ id
  have hpend : ∀ id, pendingOn id (session.streams ++ [newEntry streamId data endStream weight]) =
      pendingOn id session.streams ++ if streamId = id then data else [] := by
    intro id
    unfold pendingOn restOn
    rw [flatMap_append, flatMap_cons, flatMap_nil, append_nil, hrest]
    rfl
  exact {
    no_control := H.no_control
    no_headers := H.no_headers
    drains := by
      intro id
      rw [hstreams, hpend]
      refine (enqueued_append session _ id).symm ▸ (H.drains id).extend fun hend => ?_
      show (if streamId = id then data else []) = []
      split
      · next hid =>
        refine hok.resolve_right fun hfalse => ?_
        rw [hid, H.sent_asked id hend] at hfalse
        cases hfalse
      rfl
    sent_asked := by
      intro id hend
      rw [hasked, H.sent_asked id hend, Bool.true_or]
    end_asked := by
      intro s hmem hflag
      rw [hasked]
      rw [hstreams] at hmem
      rcases List.mem_append.1 hmem with hold | hnew
      · rw [H.end_asked s hold hflag, Bool.true_or]
      obtain rfl := List.mem_singleton.1 hnew
      have hself : OutboundCall.asksEnd streamId (.enqueueData streamId data endStream weight) =
          true := by
        rw [OutboundCall.asksEnd, decide_eq_true rfl, Bool.true_and]
        exact hflag
      exact Bool.or_eq_true_iff.2 (.inr hself)
    after_end := by
      rw [hstreams]
      refine List.pairwise_append.2 ⟨H.after_end, pairwise_singleton _ _, ?_⟩
      intro e he e' he' hflag hid
      obtain rfl := List.mem_singleton.1 he'
      rw [hrest]
      refine hok.resolve_right fun hfalse => ?_
      have hasked := H.end_asked e he hflag
      rw [← hid] at hasked
      exact Bool.false_ne_true (hfalse.symm.trans hasked)
    window_le := by
      intro s hmem
      rw [hstreams] at hmem
      rcases List.mem_append.1 hmem with hold | hnew
      · exact H.window_le s hold
      obtain rfl := List.mem_singleton.1 hnew
      exact Nat.le_of_eq (window_newEntry ..)
    used_eq := by
      intro id
      have hnone : (newEntry streamId data endStream weight).used = 0 := by
        rw [used, window_newEntry, Nat.sub_self]
      rw [hstreams]
      refine (H.used_eq id).trans ?_
      unfold sumOn
      rw [map_append, sum_append, map_singleton, sum_singleton, hnone, ite_self,
        Nat.add_zero]
    sent_le := H.sent_le }

theorem log_flush (budget : H2OutboundBudget) (config : H2SchedulerConfig) (id : UInt32) :
    (session.step (.flushOutbound budget config)).log id =
      session.log id ++ framesOn id (pickSendableFrames budget session.streams config).1.frames := by
  have hframes : (session.step (.flushOutbound budget config)).frames = session.frames ++
      (session.core.outboundQueues.controlFrames ++ session.core.outboundQueues.headerFrames ++
        (pickSendableFrames budget session.streams config).1.frames.map .data) := rfl
  rw [log, hframes, H.no_control, H.no_headers, flatMap_append, nil_append, nil_append, flatMap_map]
  rfl

theorem inv_flushOutbound (hok : session.CallOk (.flushOutbound budget config)) :
    (session.step (.flushOutbound budget config)).Inv := by
  have hstreams : (session.step (.flushOutbound budget config)).streams =
      (pickSendableFrames budget session.streams config).2 := rfl
  have hall := pickSendableFrames_forall₂ budget config session.streams
  have hasked : ∀ id, (session.step (.flushOutbound budget config)).endAsked id =
      session.endAsked id := fun id => (endAsked_append session _ id).trans (Bool.or_false _)
  have henqueued : ∀ id, (session.step (.flushOutbound budget config)).enqueued id =
      session.enqueued id := fun id => (enqueued_append session _ id).trans (append_nil _)
  have hflush := fun id => @pickSendableFrames_log config session.streams id budget hok H.after_end
  have hused : ∀ id, (items (session.log id ++
      framesOn id (pickSendableFrames budget session.streams config).1.frames)).length =
        sumOn used id (pickSendableFrames budget session.streams config).2 ∧
      sumOn used id (pickSendableFrames budget session.streams config).2 ≤
        kDefaultInitialWindowSize.toNat := by
    intro id
    obtain ⟨heq, hneed, hrest⟩ := accounting id hall H.window_le
    have hconn := pickSendableFrames_restLength budget config session.streams
    have hsent := congrArg List.length (hflush id).1.items_eq
    have hbefore := H.used_eq id
    have hle := H.sent_le id
    rw [length_append] at hsent
    rw [items_append, length_append]
    rcases hok with hzero | hok
    · have hnone : pickSendableFrames budget session.streams config = ({}, session.streams) := by
        rw [pickSendableFrames, pickSendable, if_pos hzero]
      rw [hnone] at hsent heq ⊢
      simp only [framesOn, flatMap_nil, items_nil, length_nil] at hsent ⊢
      omega
    have hwin := hok.window id
    omega
  exact {
    no_control := rfl
    no_headers := rfl
    drains := by
      intro id
      rw [log_flush H, hstreams, henqueued]
      exact (H.drains id).trans (hflush id).1
    sent_asked := by
      intro id hend
      rw [hasked]
      rw [log_flush H, mem_append] at hend
      rcases hend with hold | hnew
      · exact H.sent_asked id hold
      obtain ⟨s, hs, rfl, hflag⟩ := (hflush id).2 hnew
      exact H.end_asked s hs hflag
    end_asked := by
      intro s' hmem hflag
      rw [hasked]
      obtain ⟨s, hs, m, -, hadv⟩ := exists_of_forall₂ hall hmem
      rw [hadv.streamId_eq]
      exact H.end_asked s hs (hadv.endStream_of hflag)
    after_end := H.after_end.of_forall₂ hall
    window_le := by
      intro s' hmem
      obtain ⟨s, hs, m, -, hadv⟩ := exists_of_forall₂ hall hmem
      rw [hadv.window_eq]
      exact (Nat.sub_le _ _).trans (H.window_le s hs)
    used_eq := by
      intro id
      rw [log_flush H, hstreams]
      exact (hused id).1
    sent_le := by
      intro id
      rw [log_flush H]
      exact (hused id).1.trans_le (hused id).2 }

theorem inv_step (hok : session.CallOk call) : (session.step call).Inv := by
  cases call with
  | enqueueData streamId data endStream weight => exact inv_enqueueData H hok
  | flushOutbound budget config => exact inv_flushOutbound H hok

theorem inv_run {calls : List OutboundCall} (hok : session.AllOk calls) :
    (session.run calls).Inv := by
  induction calls generalizing session with
  | nil => exact H
  | cons call calls ih => exact ih (inv_step H hok.1) hok.2

end

/-- In a run of safe calls every stream is sent in order. -/
theorem run_ordered (calls : List OutboundCall) (hok : AllOk {} calls) (streamId : UInt32) :
    (run {} calls).Ordered streamId :=
  (inv_run inv_init hok).ordered streamId

/-- With one entry for each stream every flush is safe. -/
theorem flushOk_of_pairwise
    {streams : List H2StreamSendState} (hids : streams.Pairwise (·.streamId ≠ ·.streamId))
    (hwin : ∀ s ∈ streams, s.window ≤ kDefaultInitialWindowSize.toNat) :
    FlushOk config conn streams where
  order := by
    rintro pre s post rfl - e hmem hid
    exact absurd hid ((List.pairwise_append.1 hids).2.2 e hmem s (mem_cons_self ..))
  endOnly := by
    intro e he _ hrest e' he' hid
    obtain rfl : e' = e := by
      have : Std.Symm fun s s' : H2StreamSendState => s.streamId ≠ s'.streamId :=
        ⟨fun _ _ h => h.symm⟩
      by_contra hne
      exact hids.forall he' he hne hid
    exact hrest
  window := by
    intro id
    have hnone : ∀ f (l : List H2StreamSendState), (∀ s ∈ l, s.streamId ≠ id) → sumOn f id l = 0 := by
      intro f l hl
      refine sum_eq_zero fun n hmem => ?_
      obtain ⟨s, hs, rfl⟩ := List.mem_map.1 hmem
      exact if_neg (hl s hs)
    have hsum : sumOn used id streams + sumOn need id streams ≤ kDefaultInitialWindowSize.toNat := by
      induction streams with
      | nil => exact Nat.zero_le _
      | cons s streams ih =>
      obtain ⟨hhead, htail⟩ := List.pairwise_cons.1 hids
      have ih := ih htail fun s hs => hwin s (mem_cons_of_mem _ hs)
      have hcons : ∀ f, sumOn f id (s :: streams) =
          (if s.streamId = id then f s else 0) + sumOn f id streams := fun f => sum_cons
      rw [hcons, hcons]
      by_cases hid : s.streamId = id
      · have hrest := fun f => hnone f streams fun s' hs' h => hhead s' hs' (hid.trans h.symm)
        have hs := hwin s (mem_cons_self ..)
        have hneed := need_le_window s
        rw [if_pos hid, if_pos hid, hrest, hrest, used]
        omega
      rw [if_neg hid, if_neg hid, Nat.zero_add, Nat.zero_add]
      exact ih
    omega

/-- Two streams, each with one entry. -/
def twoStreams : List OutboundCall :=
  [.enqueueData 1 [97, 98] true 16, .enqueueData 3 [99] false 16,
    .flushOutbound { connWindow := 2 } {}, .flushOutbound { connWindow := 10 } {}]

theorem run_ordered_twoStreams :
    (run {} twoStreams).Ordered 1 ∧ (run {} twoStreams).log 1 = [some 97, some 98, none] ∧
      (run {} twoStreams).log 3 = [some 99] := by
  refine ⟨run_ordered twoStreams ⟨.inr rfl, .inr rfl, .inr ?_, .inr ?_, trivial⟩ 1, by decide, by decide⟩
  · exact flushOk_of_pairwise (by decide) (by decide)
  · exact flushOk_of_pairwise (by decide) (by decide)

/-- The end of a stream is asked for in a call of its own, before its data is sent. -/
theorem end_before_data :
    ¬ (run {} [.enqueueData 1 [97] false 16, .enqueueData 1 [] true 16,
      .flushOutbound { connWindow := 10 } {}]).Ordered 1 := by
  intro h
  exact absurd (h.end_last [] [some 97] (by decide)) (by decide)

end OutboundSession

end Galay.Http2
