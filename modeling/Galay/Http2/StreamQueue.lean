import Galay.Http2.Conn
import Galay.Http2.Outbound.SchedulerLemmas
import Galay.Http2.StreamLemmas
import Galay.Lib.Cutting
import Mathlib.Data.List.Induction

/-!
# The queue of DATA of a stream

What is queued on a stream is cut into frames one after the other, by the windows and the frame
size there are at the time. `Queue` is the invariant of the queue; a flush ends with the queue empty
or with a window of zero, so nothing that may be sent stays.
-/

namespace Galay.Http2

open List
open Lib

/-- The frame as a piece of what is queued. -/
def Http2OutgoingFrame.piece (item : Http2OutgoingFrame) : Marked UInt8 where
  data := item.payload
  marked := match item with
    | .segmented header _ => header.isEndStream
    | _ => false

def PendingDataSend.message (pending : PendingDataSend) : Marked UInt8 :=
  ⟨pending.payload, pending.endStream⟩

namespace Http2Stream

/-- Where the first of the queue has been cut. -/
def frontOffset : List PendingDataSend → Nat
  | [] => 0
  | pending :: _ => pending.offset

/-- An item has something left, if it has anything. -/
def Left (pending : PendingDataSend) : Prop :=
  pending.offset < pending.payload.length ∨ pending.payload = [] ∧ pending.offset = 0

/-- The messages have been cut into the frames, and the queue is what is left of them. -/
structure Queue (messages : List (Marked UInt8)) (frames : List Http2OutgoingFrame)
    (pending : List PendingDataSend) : Prop where
  cut : Cut messages (frames.map Http2OutgoingFrame.piece) (frontOffset pending)
    (pending.map PendingDataSend.message)
  front : ∀ first ∈ pending.head?, Left first
  rest : ∀ later ∈ pending.tail, later.offset = 0

variable {messages : List (Marked UInt8)} {frames : List Http2OutgoingFrame}
  {pending : PendingDataSend} {queue : List PendingDataSend} {stream : Http2Stream}
  {io : Http2StreamIo} {p q r : StreamAndIo} {out out' : List Http2OutgoingFrame}

theorem Left.fresh : Left { payload, endStream } := by
  cases payload with
  | nil => exact .inr ⟨rfl, rfl⟩
  | cons b payload => exact .inl (Nat.succ_pos _)

theorem Queue.of_finish (h : Queue messages frames (pending :: queue))
    (hitem : item.piece = ⟨pending.payload.drop pending.offset, pending.endStream⟩) :
    Queue messages (frames ++ [item]) queue := by
  have hzero : ∀ later ∈ queue, later.offset = 0 := h.rest
  have hoffset : frontOffset queue = 0 := by
    cases queue with
    | nil => rfl
    | cons next queue => exact hzero next mem_cons_self
  refine ⟨?_, ?_, ?_⟩
  · have := h.cut.finish
    rw [map_append, map_singleton, hitem, hoffset]
    exact this
  · intro first hfirst
    have hfirst : first.offset = 0 := hzero first (mem_of_mem_head? hfirst)
    rcases Nat.eq_zero_or_pos first.payload.length with hnil | hpos
    · exact .inr ⟨List.length_eq_zero_iff.1 hnil, hfirst⟩
    exact .inl (hfirst ▸ hpos)
  intro later hlater
  exact hzero later (mem_of_mem_tail hlater)

theorem Queue.of_piece (h : Queue messages frames (pending :: queue))
    (hn : pending.offset + n < pending.payload.length)
    (hitem : item.piece = ⟨(pending.payload.drop pending.offset).take n, false⟩) :
    Queue messages (frames ++ [item]) ({ pending with offset := pending.offset + n } :: queue) := by
  refine ⟨?_, ?_, h.rest⟩
  · have := h.cut.piece hn.le
    rw [map_append, map_singleton, hitem]
    exact this
  intro first hfirst
  cases hfirst
  exact .inl hn

theorem Queue.add (h : Queue messages frames queue) (payload : Bytes) (endStream : Bool) :
    Queue (messages ++ [⟨payload, endStream⟩]) frames
      (queue ++ [({ payload, endStream } : PendingDataSend)]) := by
  have hcut := h.cut.queue [⟨payload, endStream⟩]
  refine ⟨?_, ?_, ?_⟩
  · rw [map_append]
    cases queue with
    | nil => exact hcut
    | cons first queue => exact hcut
  · cases queue with
    | nil =>
      intro first hfirst
      cases hfirst
      exact .fresh
    | cons first queue => exact h.front
  cases queue with
  | nil => nofun
  | cons first queue =>
  intro later hlater
  rcases List.mem_append.1 hlater with hmem | hmem
  · exact h.rest later hmem
  rw [List.mem_singleton.1 hmem]

/-! ## One frame -/

/-- A step of the flush: frames within the limits of the stream. -/
structure Flushes (out : List Http2OutgoingFrame) (p q : StreamAndIo) : Prop
    extends SendsData out p q where
  withinStream : dataBytes (fun _ => true) out ≤ windowSize p.1.sendWindow
  sizes : ∀ item ∈ out, item.payload.length ≤ p.1.maxFrameSize.toNat

theorem Flushes.refl (p : StreamAndIo) : Flushes [] p p :=
  ⟨.refl p, Nat.zero_le _, nofun⟩

theorem Flushes.trans (h : Flushes out p q) (h' : Flushes out' q r) : Flushes (out ++ out') p r where
  toSendsData := h.toSendsData.trans h'.toSendsData
  withinStream := by
    have h1 := h.withinStream
    have h2 := h'.withinStream
    unfold windowSize at h1 h2 ⊢
    rw [h.sendWindow] at h2
    rw [dataBytes_append]
    omega
  sizes item hitem := by
    rcases List.mem_append.1 hitem with hmem | hmem
    · exact h.sizes item hmem
    exact (h'.sizes item hmem).trans (h.maxFrameSize ▸ le_rfl)

theorem isEndStream_dataHeaderBytes (streamId : UInt32) (length : Nat) (endStream : Bool) :
    (Http2FrameBuilder.dataHeaderBytes streamId length endStream).isEndStream = endStream :=
  Http2FrameBuilder.isEndStream_endFlags _ endStream false rfl

theorem piece_data (streamId : UInt32) (length : Nat) (endStream : Bool) (payload : Bytes) :
    (Http2OutgoingFrame.segmented (Http2FrameBuilder.dataHeaderBytes streamId length endStream)
      payload).piece = ⟨payload, endStream⟩ :=
  congrArg (Marked.mk payload) (isEndStream_dataHeaderBytes streamId length endStream)

/-- What is sent of an item: all that is left of it, or a part. -/
inductive Takes (pending : PendingDataSend) : Marked UInt8 → Option PendingDataSend → Prop
  | all : Takes pending ⟨pending.payload.drop pending.offset, pending.endStream⟩ none
  | part {n : Nat} (hpos : 0 < n) (hn : pending.offset + n < pending.payload.length) :
      Takes pending ⟨(pending.payload.drop pending.offset).take n, false⟩
        (some { pending with offset := pending.offset + n })

theorem flushPendingDataFront_takes (hleft : Left pending)
    (h : stream.flushPendingDataFront pending io = some (left, p)) :
    ∃ item, Flushes [item] (stream, io) p ∧ Takes pending item.piece left := by
  unfold flushPendingDataFront at h
  split at h
  · next hempty =>
    -- an empty payload is a frame of its own, whatever the windows are
    injection h with h
    injection h with hl hp
    subst hl hp
    have hpay : pending.payload = [] := List.length_eq_zero_iff.1 hempty
    have hsent := ite_onDataSent_sends pending.endStream (stream, io)
    have hframe := enqueue_empty_sends
      (if pending.endStream then stream.onDataSent true io else (stream, io)).1
      (if pending.endStream then stream.onDataSent true io else (stream, io)).2 pending.endStream
    rw [hsent.streamId] at hframe
    refine ⟨_, ⟨hsent.trans hframe, ?_, ?_⟩, ?_⟩
    · exact Nat.zero_le _
    · intro item hitem
      rw [List.mem_singleton.1 hitem]
      exact Nat.zero_le _
    have hpiece : Takes pending ⟨pending.payload.drop pending.offset, pending.endStream⟩ none :=
      .all
    rw [piece_data]
    rwa [hpay, drop_nil] at hpiece
  next hne =>
  dsimp only at h
  split at h
  · exact nomatch h
  next hchunk =>
  injection h with h
  injection h with hl hp
  subst hl hp
  have hsize : stream.availableDataChunkSize pending io =
      min (pending.payload.length - pending.offset) (min stream.maxFrameSize.toNat
        (min (windowSize stream.sendWindow) (windowSize io.connSendWindow))) := rfl
  generalize stream.availableDataChunkSize pending io = n at *
  have hlen : ((pending.payload.drop pending.offset).take n).length = n := by
    rw [length_take, length_drop]
    omega
  have hframe := enqueue_data_sends stream io
    (Http2FrameBuilder.dataHeaderBytes stream.streamId n
      (pending.endStream && decide (pending.offset + n = pending.payload.length)))
    ((pending.payload.drop pending.offset).take n) rfl rfl (by omega) (by omega)
  rw [hlen] at hframe
  have hbytes : dataBytes (fun _ => true) [Http2OutgoingFrame.segmented
      (Http2FrameBuilder.dataHeaderBytes stream.streamId n
        (pending.endStream && decide (pending.offset + n = pending.payload.length)))
      ((pending.payload.drop pending.offset).take n)] = n := hlen
  refine ⟨_, ⟨hframe.trans (ite_onDataSent_sends _ _), ?_, ?_⟩, ?_⟩
  · rw [hbytes]
    show n ≤ windowSize stream.sendWindow
    omega
  · intro item hitem
    rw [List.mem_singleton.1 hitem]
    have hmax : n ≤ stream.maxFrameSize.toNat := by omega
    exact hlen.le.trans hmax
  rw [piece_data]
  by_cases hfinal : pending.offset + n = pending.payload.length
  · have hall : (pending.payload.drop pending.offset).take n =
        pending.payload.drop pending.offset :=
      take_of_length_le (by rw [length_drop]; omega)
    rw [decide_eq_true hfinal, Bool.and_true, hall]
    exact .all
  rw [decide_eq_false hfinal, Bool.and_false]
  exact .part (Nat.pos_of_ne_zero hchunk) (by omega)

theorem flushPendingDataFront_none (hleft : Left pending) (hmax : stream.maxFrameSize ≠ 0)
    (h : stream.flushPendingDataFront pending io = none) :
    windowSize stream.sendWindow = 0 ∨ windowSize io.connSendWindow = 0 := by
  unfold flushPendingDataFront at h
  split at h
  · exact nomatch h
  next hne =>
  dsimp only at h
  split at h
  · next hzero =>
    have hpos : 0 < stream.maxFrameSize.toNat :=
      Nat.pos_of_ne_zero fun hz => hmax (UInt32.toNat_inj.1 hz)
    have hoffset : pending.offset < pending.payload.length := by
      rcases hleft with hlt | ⟨hnil, -⟩
      · exact hlt
      exact absurd (congrArg List.length hnil) hne
    unfold availableDataChunkSize at hzero
    omega
  exact nomatch h

/-! ## The flush -/

/-- A window that is used up. -/
def Blocked (p : StreamAndIo) : Prop :=
  windowSize p.1.sendWindow = 0 ∨ windowSize p.2.connSendWindow = 0

/-- As many rounds as there are bytes left, and one more, are enough for an item. -/
theorem flushPendingDataItem_queue (rounds : Nat) (h : Queue messages frames (pending :: queue))
    (hmax : stream.maxFrameSize ≠ 0) (hrounds : pending.payload.length - pending.offset < rounds) :
    ∃ out, Flushes out (stream, io) (stream.flushPendingDataItem rounds pending io).2 ∧
      Queue messages (frames ++ out)
        ((stream.flushPendingDataItem rounds pending io).1.toList ++ queue) ∧
      ((stream.flushPendingDataItem rounds pending io).1 = none ∨
        Blocked (stream.flushPendingDataItem rounds pending io).2) := by
  induction rounds generalizing frames pending stream io with
  | zero => exact absurd hrounds (Nat.not_lt_zero _)
  | succ rounds ih =>
  have hleft : Left pending := h.front pending rfl
  unfold flushPendingDataItem
  cases hfront : stream.flushPendingDataFront pending io with
  | none =>
    refine ⟨[], .refl _, ?_, .inr (flushPendingDataFront_none hleft hmax hfront)⟩
    rw [append_nil]
    exact h
  | some result =>
  obtain ⟨left, stream', io'⟩ := result
  obtain ⟨item, hflush, htakes⟩ := flushPendingDataFront_takes hleft hfront
  generalize hpiece : item.piece = piece at htakes
  cases htakes with
  | all => exact ⟨[item], hflush, h.of_finish hpiece, .inl rfl⟩
  | @part n hpos hn =>
  have hmax' : stream'.maxFrameSize ≠ 0 := hflush.maxFrameSize ▸ hmax
  obtain ⟨out, hout, hqueue, hend⟩ := @ih _ _ stream' io' (h.of_piece hn hpiece) hmax'
    (show pending.payload.length - (pending.offset + n) < rounds by omega)
  refine ⟨item :: out, hflush.trans hout, ?_, hend⟩
  rw [append_assoc] at hqueue
  exact hqueue

theorem flushPendingDataQueue_queue (h : Queue messages frames queue)
    (hmax : stream.maxFrameSize ≠ 0) :
    ∃ out, Flushes out (stream, io) (flushPendingDataQueue queue stream io).2 ∧
      Queue messages (frames ++ out) (flushPendingDataQueue queue stream io).1 ∧
      ((flushPendingDataQueue queue stream io).1 = [] ∨
        Blocked (flushPendingDataQueue queue stream io).2) := by
  induction queue generalizing frames stream io with
  | nil =>
    refine ⟨[], .refl _, ?_, .inl rfl⟩
    rw [append_nil]
    exact h
  | cons pending queue ih =>
  obtain ⟨out, hout, hqueue, hend⟩ := @flushPendingDataItem_queue _ _ _ _ stream io
    (pending.payload.length + 1) h hmax (Nat.lt_succ_of_le (Nat.sub_le _ _))
  unfold flushPendingDataQueue
  generalize stream.flushPendingDataItem (pending.payload.length + 1) pending io = result at *
  obtain ⟨left, stream', io'⟩ := result
  cases left with
  | some left =>
    refine ⟨out, hout, hqueue, .inr ?_⟩
    rcases hend with hnone | hblocked
    · cases hnone
    exact hblocked
  | none =>
  have hmax' : stream'.maxFrameSize ≠ 0 := hout.maxFrameSize ▸ hmax
  obtain ⟨out', hout', hqueue', hend'⟩ := @ih _ stream' io' hqueue hmax'
  refine ⟨out ++ out', hout.trans hout', ?_, hend'⟩
  rw [← append_assoc]
  exact hqueue'

/-- A stream with its queue: what has been queued on it, and the frames that it has sent of it. -/
structure Holds (messages : List (Marked UInt8)) (frames : List Http2OutgoingFrame)
    (p : StreamAndIo) : Prop where
  attached : p.1.ioAttached = true
  maxFrameSize : p.1.maxFrameSize ≠ 0
  queue : Queue messages frames p.1.pendingData
  sendWindow : 0 ≤ p.1.sendWindow.toInt
  connSendWindow : 0 ≤ p.2.connSendWindow.toInt

/-- Nothing stays that may be sent. -/
def Flushed (p : StreamAndIo) : Prop :=
  p.1.pendingData = [] ∨ p.1.sendWindow = 0 ∨ p.2.connSendWindow = 0

theorem eq_zero_of_windowSize {window : Int32} (hnonneg : 0 ≤ window.toInt)
    (h : windowSize window = 0) : window = 0 := by
  unfold windowSize at h
  refine Int32.toInt_inj.1 ?_
  rw [Int32.toInt_zero]
  omega

theorem nonneg_of_debited {window window' : Int32} {bytes : Nat}
    (h : window'.toInt = window.toInt - bytes) (hle : bytes ≤ windowSize window)
    (hnonneg : 0 ≤ window.toInt) : 0 ≤ window'.toInt := by
  unfold windowSize at hle
  omega

theorem flushPendingData_holds (h : Holds messages frames p) :
    ∃ out, Flushes out p (p.1.flushPendingData p.2) ∧
      Holds messages (frames ++ out) (p.1.flushPendingData p.2) ∧
      Flushed (p.1.flushPendingData p.2) := by
  obtain ⟨stream, io⟩ := p
  obtain ⟨out, hout, hqueue, hend⟩ := @flushPendingDataQueue_queue _ _ _ stream io h.queue
    h.maxFrameSize
  have hstream := nonneg_of_debited hout.sendWindow hout.withinStream h.sendWindow
  have hconn := nonneg_of_debited hout.connSendWindow hout.within h.connSendWindow
  unfold flushPendingData
  rw [if_pos h.attached]
  dsimp only
  generalize flushPendingDataQueue stream.pendingData stream io = result at *
  obtain ⟨queue, stream', io'⟩ := result
  have hsame : SendsData [] (stream', io') ({ stream' with pendingData := queue }, io') :=
    .of_core rfl rfl rfl
  have hsends := hout.toSendsData.trans hsame
  rw [append_nil] at hsends
  refine ⟨out, ⟨hsends, hout.withinStream, hout.sizes⟩, ?_, ?_⟩
  · exact ⟨hout.ioAttached.trans h.attached, hout.maxFrameSize ▸ h.maxFrameSize, hqueue, hstream,
      hconn⟩
  rcases hend with hnil | hblocked | hblocked
  · exact .inl hnil
  · exact .inr (.inl (eq_zero_of_windowSize hstream hblocked))
  exact .inr (.inr (eq_zero_of_windowSize hconn hblocked))

/-! ## Sending -/

theorem queueDataForSend_holds (h : Holds messages frames p) (payload : Bytes) (endStream : Bool) :
    ∃ out, Flushes out p (p.1.queueDataForSend payload endStream p.2) ∧
      Holds (messages ++ [⟨payload, endStream⟩]) (frames ++ out)
        (p.1.queueDataForSend payload endStream p.2) ∧
      Flushed (p.1.queueDataForSend payload endStream p.2) := by
  obtain ⟨stream, io⟩ := p
  have hadded : Holds (messages ++ [⟨payload, endStream⟩]) frames
      ({ stream with pendingData := stream.pendingData ++ [{ payload, endStream }] }, io) :=
    ⟨h.attached, h.maxFrameSize, h.queue.add payload endStream, h.sendWindow, h.connSendWindow⟩
  obtain ⟨out, hout, hholds, hflushed⟩ := flushPendingData_holds hadded
  have hsame : SendsData [] (stream, io)
      ({ stream with pendingData := stream.pendingData ++ [{ payload, endStream }] }, io) :=
    .of_core rfl rfl rfl
  unfold queueDataForSend
  rw [if_pos h.attached]
  exact ⟨out, ⟨hsame.trans hout.toSendsData, hout.withinStream, hout.sizes⟩, hholds, hflushed⟩

/-- Chunks as messages, the mark on the last. -/
def chunkMessages (endStream : Bool) : List Bytes → List (Marked UInt8)
  | [] => []
  | chunk :: chunks => ⟨chunk, endStream && chunks.isEmpty⟩ :: chunkMessages endStream chunks

/-- Without a chunk there is only the end. -/
def batchMessages (chunks : List Bytes) (endStream : Bool) : List (Marked UInt8) :=
  if chunks = [] then if endStream then [⟨[], true⟩] else []
  else chunkMessages endStream chunks

theorem queueChunks_holds (endStream : Bool) (chunks : List Bytes) (h : Holds messages frames p)
    (hflushed : Flushed p) :
    ∃ out, Flushes out p (queueChunks endStream chunks p.1 p.2) ∧
      Holds (messages ++ chunkMessages endStream chunks) (frames ++ out)
        (queueChunks endStream chunks p.1 p.2) ∧
      Flushed (queueChunks endStream chunks p.1 p.2) := by
  induction chunks generalizing messages frames p with
  | nil =>
    refine ⟨[], .refl p, ?_, hflushed⟩
    rw [append_nil, chunkMessages, append_nil]
    exact h
  | cons chunk chunks ih =>
  obtain ⟨out, hout, hholds, hflushed⟩ :=
    queueDataForSend_holds h chunk (endStream && chunks.isEmpty)
  obtain ⟨out', hout', hholds', hflushed'⟩ := ih hholds hflushed
  refine ⟨out ++ out', hout.trans hout', ?_, hflushed'⟩
  rw [append_assoc, append_assoc] at hholds'
  exact hholds'

/-! ## Runs -/

/-- Limits that the settings of a peer can have. -/
structure PeerLimits where
  maxFrameSize : UInt32
  maxHeaderListSize : UInt32
  allowed : 16384 ≤ maxFrameSize ∧ maxFrameSize ≤ 16777215

/-- What is done to the queue of a stream. The increments are those of WINDOW_UPDATE frames, of the
stream and of the connection; with each the stream takes the limits of the peer. -/
inductive DataEvent
  | sendData (data : Bytes) (endStream : Bool)
  | sendDataBatch (chunks : List Bytes) (endStream : Bool)
  | sendDataChunks (chunks : List Bytes) (endStream : Bool)
  | streamWindow (increment : UInt32) (peer : PeerLimits)
  | connWindow (increment : UInt32) (peer : PeerLimits)
  | settings (peer : PeerLimits)

/-- Whether a window takes an increment; otherwise the stream or the connection is given up. -/
def takesIncrement (window : Int32) (increment : UInt32) : Bool :=
  increment ≠ 0 && window.toInt + increment.toNat ≤ kMaxStreamId.toNat

/-- `refreshStream` after a change of the windows. -/
def refresh (peer : PeerLimits) (p : StreamAndIo) : StreamAndIo :=
  (p.1.setLimits peer.maxFrameSize peer.maxHeaderListSize).flushPendingData p.2

namespace DataEvent

def apply (p : StreamAndIo) : DataEvent → StreamAndIo
  | sendData data endStream => p.1.queueDataForSend data endStream p.2
  | sendDataBatch chunks endStream => p.1.sendDataBatchInternal chunks endStream p.2
  | sendDataChunks chunks endStream => p.1.sendDataChunksInternal chunks endStream p.2
  | streamWindow increment peer =>
    if takesIncrement p.1.sendWindow increment then
      refresh peer (p.1.adjustSendWindow increment.toInt32, p.2)
    else p
  | connWindow increment peer =>
    if takesIncrement p.2.connSendWindow increment then
      refresh peer (p.1, { p.2 with connSendWindow := p.2.connSendWindow + increment.toInt32 })
    else p
  | settings peer => refresh peer p

/-- What an event queues. -/
def queues : DataEvent → List (Marked UInt8)
  | sendData data endStream => [⟨data, endStream⟩]
  | sendDataBatch chunks endStream | sendDataChunks chunks endStream =>
    batchMessages chunks endStream
  | streamWindow .. | connWindow .. | settings .. => []

/-- The stream when the flush of an event begins: its windows and limits are the new ones. -/
def arrive (p : StreamAndIo) : DataEvent → StreamAndIo
  | sendData .. | sendDataBatch .. | sendDataChunks .. => p
  | streamWindow increment peer =>
    if takesIncrement p.1.sendWindow increment then
      ((p.1.adjustSendWindow increment.toInt32).setLimits peer.maxFrameSize peer.maxHeaderListSize,
        p.2)
    else p
  | connWindow increment peer =>
    if takesIncrement p.2.connSendWindow increment then
      (p.1.setLimits peer.maxFrameSize peer.maxHeaderListSize,
        { p.2 with connSendWindow := p.2.connSendWindow + increment.toInt32 })
    else p
  | settings peer => (p.1.setLimits peer.maxFrameSize peer.maxHeaderListSize, p.2)

end DataEvent

/-- The stream after the events. -/
def run (p : StreamAndIo) (events : List DataEvent) : StreamAndIo := events.foldl DataEvent.apply p

theorem sendDataBatchInternal_holds (h : Holds messages frames p) (hflushed : Flushed p)
    (chunks : List Bytes) (endStream : Bool) :
    ∃ out, Flushes out p (p.1.sendDataBatchInternal chunks endStream p.2) ∧
      Holds (messages ++ batchMessages chunks endStream) (frames ++ out)
        (p.1.sendDataBatchInternal chunks endStream p.2) ∧
      Flushed (p.1.sendDataBatchInternal chunks endStream p.2) := by
  unfold sendDataBatchInternal batchMessages
  split
  · split
    · exact queueDataForSend_holds h [] true
    refine ⟨[], .refl p, ?_, hflushed⟩
    rw [append_nil, append_nil]
    exact h
  exact queueChunks_holds endStream chunks h hflushed

theorem sendDataChunksInternal_holds (h : Holds messages frames p) (hflushed : Flushed p)
    (chunks : List Bytes) (endStream : Bool) :
    ∃ out, Flushes out p (p.1.sendDataChunksInternal chunks endStream p.2) ∧
      Holds (messages ++ batchMessages chunks endStream) (frames ++ out)
        (p.1.sendDataChunksInternal chunks endStream p.2) ∧
      Flushed (p.1.sendDataChunksInternal chunks endStream p.2) := by
  unfold sendDataChunksInternal
  split
  · next data =>
    have hmessages : batchMessages [data] endStream = [⟨data, endStream⟩] := by
      simp [batchMessages, chunkMessages]
    rw [hmessages]
    exact queueDataForSend_holds h data endStream
  exact sendDataBatchInternal_holds h hflushed _ endStream

theorem nonneg_of_takesIncrement {window : Int32} (hnonneg : 0 ≤ window.toInt)
    (h : takesIncrement window increment = true) : 0 ≤ (window + increment.toInt32).toInt := by
  unfold takesIncrement at h
  rw [Bool.and_eq_true, decide_eq_true_iff, decide_eq_true_iff] at h
  have hmax : kMaxStreamId.toNat = 2 ^ 31 - 1 := rfl
  have hincr : increment.toInt32.toInt = increment.toNat := toInt_toInt32_of_lt (by omega)
  rw [toInt_add_of_lt (by omega) (by omega), hincr]
  omega

section

variable (h : Holds messages frames p)

include h

theorem setLimits_holds (peer : PeerLimits) :
    Holds messages frames (p.1.setLimits peer.maxFrameSize peer.maxHeaderListSize, p.2) := by
  refine { h with maxFrameSize := ?_ }
  intro hzero
  have hallowed : 16384 ≤ peer.maxFrameSize := peer.allowed.1
  rw [show peer.maxFrameSize = 0 from hzero] at hallowed
  exact absurd hallowed (by decide)

theorem arrive_holds (event : DataEvent) :
    Holds messages frames (event.arrive p) := by
  cases event with
  | sendData | sendDataBatch | sendDataChunks => exact h
  | settings peer => exact setLimits_holds h peer
  | streamWindow increment peer =>
    rw [DataEvent.arrive]
    split
    · next htakes =>
      have hraised : Holds messages frames (p.1.adjustSendWindow increment.toInt32, p.2) :=
        { h with sendWindow := nonneg_of_takesIncrement h.sendWindow htakes }
      exact setLimits_holds hraised peer
    exact h
  | connWindow increment peer =>
  rw [DataEvent.arrive]
  split
  · next htakes =>
    have hraised : Holds messages frames
        (p.1, { p.2 with connSendWindow := p.2.connSendWindow + increment.toInt32 }) :=
      { h with connSendWindow := nonneg_of_takesIncrement h.connSendWindow htakes }
    exact setLimits_holds hraised peer
  exact h

theorem apply_holds (hflushed : Flushed p) (event : DataEvent) :
    ∃ out, Flushes out (event.arrive p) (event.apply p) ∧
      Holds (messages ++ event.queues) (frames ++ out) (event.apply p) ∧ Flushed (event.apply p) := by
  have harrived := flushPendingData_holds (arrive_holds h event)
  cases event with
  | sendData data endStream => exact queueDataForSend_holds h data endStream
  | sendDataBatch chunks endStream => exact sendDataBatchInternal_holds h hflushed chunks endStream
  | sendDataChunks chunks endStream => exact sendDataChunksInternal_holds h hflushed chunks endStream
  | settings peer =>
    rw [DataEvent.queues, append_nil]
    exact harrived
  | streamWindow increment peer =>
    rw [DataEvent.queues, append_nil]
    rw [DataEvent.arrive] at harrived ⊢
    rw [DataEvent.apply]
    split
    · next htakes =>
      rw [if_pos htakes] at harrived
      exact harrived
    exact ⟨[], .refl p, by rwa [append_nil], hflushed⟩
  | connWindow increment peer =>
  rw [DataEvent.queues, append_nil]
  rw [DataEvent.arrive] at harrived ⊢
  rw [DataEvent.apply]
  split
  · next htakes =>
    rw [if_pos htakes] at harrived
    exact harrived
  exact ⟨[], .refl p, by rwa [append_nil], hflushed⟩

end

theorem arrive_channel (p : StreamAndIo) (event : DataEvent) :
    (event.arrive p).2.sendChannel = p.2.sendChannel := by
  cases event with
  | sendData | sendDataBatch | sendDataChunks | settings => rfl
  | streamWindow | connWindow =>
  rw [DataEvent.arrive]
  split <;> rfl

theorem run_concat (p : StreamAndIo) (events : List DataEvent) (event : DataEvent) :
    run p (events ++ [event]) = event.apply (run p events) := by
  rw [run, foldl_append]
  rfl

theorem run_holds (h : Holds [] [] p) (hflushed : Flushed p) (events : List DataEvent) :
    ∃ frames, (run p events).2.sendChannel = p.2.sendChannel ++ frames ∧
      Holds (events.flatMap DataEvent.queues) frames (run p events) ∧ Flushed (run p events) := by
  induction events using List.reverseRecOn with
  | nil => exact ⟨[], (append_nil _).symm, h, hflushed⟩
  | append_singleton events event ih =>
  obtain ⟨frames, hchannel, hholds, hflushed⟩ := ih
  obtain ⟨out, hout, hholds', hflushed'⟩ := apply_holds hholds hflushed event
  rw [run_concat, flatMap_append, flatMap_singleton]
  refine ⟨frames ++ out, ?_, hholds', hflushed'⟩
  rw [hout.channel, arrive_channel, hchannel, append_assoc]

/-- A stream that is attached, with nothing queued. -/
structure ReadyToSend (p : StreamAndIo) : Prop where
  attached : p.1.ioAttached = true
  maxFrameSize : p.1.maxFrameSize ≠ 0
  empty : p.1.pendingData = []
  sendWindow : 0 ≤ p.1.sendWindow.toInt
  connSendWindow : 0 ≤ p.2.connSendWindow.toInt

/-- What the frames are of what was queued: its front, with END_STREAM where a message that asks for
it ends. -/
structure Fifo (messages : List (Marked UInt8)) (frames : List Http2OutgoingFrame) : Prop where
  cut : ∃ offset left, Cut messages (frames.map Http2OutgoingFrame.piece) offset left
  front : joined (frames.map Http2OutgoingFrame.piece) <+: joined messages
  ended : ∀ before item after, frames = before ++ item :: after → item.piece.marked = true →
    ∃ done message later, messages = done ++ message :: later ∧ message.marked = true ∧
      joined ((before ++ [item]).map Http2OutgoingFrame.piece) = joined (done ++ [message])

theorem Holds.fifo (h : Holds messages frames p) : Fifo messages frames where
  cut := ⟨_, _, h.queue.cut⟩
  front := h.queue.cut.joined_isPrefix
  ended before item after hsplit hmarked := by
    have hpieces := congrArg (List.map Http2OutgoingFrame.piece) hsplit
    rw [map_append, map_cons] at hpieces
    rw [map_append, map_singleton]
    exact h.queue.cut.marked hpieces hmarked

/-- After every event of a run the frames that were sent are the front of what was queued, those of
the event keep to the limits there were, and what stays in the queue waits for a window. -/
theorem run_sends (h : ReadyToSend p) (events : List DataEvent) (event : DataEvent) :
    ∃ frames out, (run p events).2.sendChannel = p.2.sendChannel ++ frames ∧
      (run p (events ++ [event])).2.sendChannel = p.2.sendChannel ++ (frames ++ out) ∧
      Fifo ((events ++ [event]).flatMap DataEvent.queues) (frames ++ out) ∧
      Flushes out (event.arrive (run p events)) (run p (events ++ [event])) ∧
      0 ≤ (run p (events ++ [event])).1.sendWindow.toInt ∧
      0 ≤ (run p (events ++ [event])).2.connSendWindow.toInt ∧
      Flushed (run p (events ++ [event])) := by
  have hqueue : Queue [] [] p.1.pendingData := by
    rw [h.empty]
    exact ⟨.nil, nofun, nofun⟩
  obtain ⟨frames, hchannel, hholds, hflushed⟩ := run_holds
    ⟨h.attached, h.maxFrameSize, hqueue, h.sendWindow, h.connSendWindow⟩ (.inl h.empty) events
  obtain ⟨out, hout, hholds', hflushed'⟩ := apply_holds hholds hflushed event
  rw [run_concat, flatMap_append, flatMap_singleton]
  refine ⟨frames, out, hchannel, ?_, hholds'.fifo, hout, hholds'.sendWindow,
    hholds'.connSendWindow, hflushed'⟩
  rw [hout.channel, arrive_channel, hchannel, append_assoc]

/-- Two chunks under a window of the connection of two bytes, and then of nine. -/
theorem run_sends_twoChunks : ∃ frames out,
    (run ((create 1).attachIo 16384 8192 { connSendWindow := 2 })
      [.sendDataBatch [[1, 2, 3], [4]] true, .connWindow 7 ⟨16384, 8192, by decide⟩]).2.sendChannel =
        [] ++ (frames ++ out) ∧
    Fifo [⟨[1, 2, 3], false⟩, ⟨[4], true⟩] (frames ++ out) ∧
    Flushed (run ((create 1).attachIo 16384 8192 { connSendWindow := 2 })
      [.sendDataBatch [[1, 2, 3], [4]] true, .connWindow 7 ⟨16384, 8192, by decide⟩]) := by
  have hready : ReadyToSend ((create 1).attachIo 16384 8192 { connSendWindow := 2 }) :=
    ⟨rfl, by decide, rfl, by decide, by decide⟩
  obtain ⟨frames, out, -, hout, hfifo, -, -, -, hflushed⟩ := run_sends hready
    [.sendDataBatch [[1, 2, 3], [4]] true] (.connWindow 7 ⟨16384, 8192, by decide⟩)
  exact ⟨frames, out, hout, hfifo, hflushed⟩

end Http2Stream

end Galay.Http2
