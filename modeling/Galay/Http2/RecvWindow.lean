import Galay.Http2.FastPath

/-!
# The receive window of the connection

The window and the WINDOW_UPDATE frames that were asked for are compared with the DATA that the peer
has sent. The peer counts the whole payload of a DATA frame; the manager counts the data of the
frames that it gives to a stream.
-/

namespace Galay.Http2

open List

/-! ## Increments -/

/-- What a frame in the send channel adds to the window of the connection. WINDOW_UPDATE frames are
always frame objects there. -/
def Http2OutgoingFrame.connIncrement : Http2OutgoingFrame → Nat
  | .frame (.windowUpdate f) => if f.header.streamId = 0 then f.windowSizeIncrement.toNat else 0
  | _ => 0

def PendingAction.connIncrement : PendingAction → Nat
  | .sendWindowUpdate streamId increment => if streamId = 0 then increment.toNat else 0
  | _ => 0

theorem Http2OutgoingFrame.connIncrement_eq_zero {item : Http2OutgoingFrame}
    (h : item.kind = .WindowUpdate → item.streamId ≠ 0) : item.connIncrement = 0 := by
  unfold connIncrement
  split
  · exact if_neg (h rfl)
  rfl

theorem sum_connIncrement_eq_zero {items : List Http2OutgoingFrame}
    (h : ∀ item ∈ items, item.kind = .WindowUpdate → item.streamId ≠ 0) :
    (items.map (·.connIncrement)).sum = 0 := by
  induction items with
  | nil => rfl
  | cons item items ih =>
  obtain ⟨hitem, hitems⟩ := List.forall_mem_cons.1 h
  rw [map_cons, sum_cons, ih hitems, Http2OutgoingFrame.connIncrement_eq_zero hitem]

/-! ## Received DATA -/

namespace Http2Stream

theorem endSent_canReceiveData (stream : Http2Stream) :
    stream.endSent.canReceiveData = stream.canReceiveData := by
  unfold endSent canReceiveData
  cases stream.state <;> rfl

theorem onDataSent_canReceiveData (endStream : Bool) (stream : Http2Stream) (io : Http2StreamIo) :
    (if endStream then stream.onDataSent true io else (stream, io)).1.canReceiveData =
      stream.canReceiveData := by
  split
  · unfold onDataSent notifyRetireIfClosed
    rw [if_pos rfl]
    dsimp only
    split <;> exact stream.endSent_canReceiveData
  rfl

theorem flushPendingDataFront_canReceiveData {stream : Http2Stream} {p : StreamAndIo}
    (h : stream.flushPendingDataFront pending io = some (rest, p)) :
    p.1.canReceiveData = stream.canReceiveData := by
  unfold flushPendingDataFront at h
  split at h
  · injection h with h
    injection h with _ h
    subst h
    exact stream.onDataSent_canReceiveData pending.endStream io
  dsimp only at h
  split at h
  · exact nomatch h
  injection h with h
  injection h with _ h
  subst h
  exact onDataSent_canReceiveData _ _ _

theorem flushPendingDataItem_canReceiveData (rounds : Nat) (pending : PendingDataSend)
    (stream : Http2Stream) (io : Http2StreamIo) :
    (stream.flushPendingDataItem rounds pending io).2.1.canReceiveData = stream.canReceiveData := by
  induction rounds generalizing pending stream io with
  | zero => rfl
  | succ rounds ih =>
  unfold flushPendingDataItem
  split
  · rfl
  · next h => exact flushPendingDataFront_canReceiveData h
  next h => exact (ih _ _ _).trans (flushPendingDataFront_canReceiveData h)

theorem flushPendingDataQueue_canReceiveData (queue : List PendingDataSend) (stream : Http2Stream)
    (io : Http2StreamIo) :
    (flushPendingDataQueue queue stream io).2.1.canReceiveData = stream.canReceiveData := by
  induction queue generalizing stream io with
  | nil => rfl
  | cons pending queue ih =>
  have hitem :=
    stream.flushPendingDataItem_canReceiveData (pending.payload.length + 1) pending io
  unfold flushPendingDataQueue
  split
  · next h => rwa [h] at hitem
  next h =>
  rw [h] at hitem
  exact (ih _ _).trans hitem

theorem attachIo_canReceiveData (maxFrameSize maxHeaderListSize : UInt32) (stream : Http2Stream)
    (io : Http2StreamIo) :
    (stream.attachIo maxFrameSize maxHeaderListSize io).1.canReceiveData = stream.canReceiveData :=
  flushPendingDataQueue_canReceiveData stream.pendingData _ io

end Http2Stream

namespace Http2StreamManager

variable {s : Http2StreamManager}

/-- The lookup of a stream sends what waits on it, but it receives as before. -/
theorem getStream_findAttachedStream_receives (h : s.conn.getStream streamId = some stream) :
    ∃ stream', (s.findAttachedStream streamId).conn.getStream streamId = some stream' ∧
      stream'.recvWindow = stream.recvWindow ∧ stream'.canReceiveData = stream.canReceiveData := by
  unfold findAttachedStream
  split
  · exact ⟨stream, h, rfl, rfl⟩
  rw [conn_rememberHotStream, attachStreamIo, getStream_onStream s.attachOp_sending.keepsId h]
  obtain ⟨out, hattach⟩ := s.attachOp_sending stream s.io
  refine ⟨_, rfl, hattach.recvWindow, ?_⟩
  unfold attachOp
  split
  · rfl
  exact stream.attachIo_canReceiveData _ _ s.io

/-! ## The balance -/

variable (s)

def actionIncrements : Nat := (s.pendingActions.map (·.connIncrement)).sum

def channelIncrements : Nat :=
  (s.io.sendChannel.map (·.connIncrement)).sum

/-- The connection increments that this endpoint has enqueued, as actions or as frames. -/
def connIncrements : Nat := s.actionIncrements + s.channelIncrements

/-- What the receive window would be without the increments. -/
def recvBalance : Int := s.conn.connRecvWindow.toInt - s.connIncrements

/-- There is no WINDOW_UPDATE among the static responses. -/
def QuietBatch : Prop :=
  ∀ item ∈ s.staticResponseBatch, item.kind ≠ .WindowUpdate

variable {s}

/-- The receiving side of the connection is as before, and frames with these increments are put into
the send channel. -/
structure Announces (increments : Nat) (s s' : Http2StreamManager) : Prop where
  connRecvWindow : s'.conn.connRecvWindow = s.conn.connRecvWindow
  runtimeConfig : s'.conn.runtimeConfig = s.conn.runtimeConfig
  localSettings : s'.conn.localSettings = s.conn.localSettings
  actions : s'.actionIncrements = s.actionIncrements
  channel : s'.channelIncrements = s.channelIncrements + increments
  batch : s.QuietBatch → s'.QuietBatch

theorem Announces.trans (h : Announces n s t) (h' : Announces m t u) : Announces (n + m) s u where
  connRecvWindow := h'.connRecvWindow.trans h.connRecvWindow
  runtimeConfig := h'.runtimeConfig.trans h.runtimeConfig
  localSettings := h'.localSettings.trans h.localSettings
  actions := h'.actions.trans h.actions
  channel := by rw [h'.channel, h.channel, Nat.add_assoc]
  batch hbatch := h'.batch (h.batch hbatch)

/-- The receiving side of the connection is as before. -/
abbrev SameRecv : Http2StreamManager → Http2StreamManager → Prop := Announces 0

theorem channelIncrements_append {s' : Http2StreamManager}
    (h : s'.io.sendChannel = s.io.sendChannel ++ out)
    (hout : ∀ item ∈ out, item.kind = .WindowUpdate → item.streamId ≠ 0) :
    s'.channelIncrements = s.channelIncrements := by
  rw [channelIncrements, channelIncrements, h, map_append, sum_append,
    sum_connIncrement_eq_zero hout, Nat.add_zero]

theorem SameRecv.of_emits (hstream : s.conn.getStream streamId = some stream)
    (h : Emits out (stream, s.io) (op stream s.io))
    (hout : ∀ item ∈ out, item.kind = .WindowUpdate → item.streamId ≠ 0) :
    SameRecv s (s.onStream streamId op) := by
  rw [onStream_some hstream]
  exact { connRecvWindow := rfl, runtimeConfig := rfl, localSettings := rfl, actions := rfl
          channel := channelIncrements_append h.channel hout, batch := fun hbatch => hbatch }

theorem SameRecv.closed : Closed SameRecv where
  refl _ := ⟨rfl, rfl, rfl, rfl, rfl, fun h => h⟩
  trans h h' := h.trans h'
  idle h :=
    { connRecvWindow := h.connRecvWindow
      runtimeConfig := h.runtimeConfig
      localSettings := h.localSettings
      actions := by rw [actionIncrements, h.pendingActions, actionIncrements]
      channel := by rw [channelIncrements, h.sendChannel, channelIncrements, Nat.add_zero]
      batch := fun hbatch item hitem => hbatch item (h.staticResponseBatch ▸ hitem) }
  onStream s streamId hop := by
    cases hstream : s.conn.getStream streamId with
    | none =>
      rw [onStream_none hstream]
      exact ⟨rfl, rfl, rfl, rfl, rfl, fun h => h⟩
    | some stream =>
    obtain ⟨out, hsends⟩ := hop stream s.io
    exact SameRecv.of_emits hstream hsends.toEmits fun item hitem h => absurd h (hsends.noUpdate item hitem)
  mapStreams _ _ := ⟨rfl, rfl, rfl, rfl, rfl, fun h => h⟩
  remove _ _ := ⟨rfl, rfl, rfl, rfl, rfl, fun h => h⟩
  action {a} s ha := by
    refine ⟨rfl, rfl, rfl, ?_, rfl, fun h => h⟩
    have hzero : a.connIncrement = 0 := by
      cases a with
      | sendWindowUpdate streamId increment => exact absurd rfl (ha streamId increment)
      | _ => rfl
    simp [actionIncrements, enqueueAction, hzero]
  enqueue s h :=
    ⟨rfl, rfl, rfl, rfl, channelIncrements_append rfl fun item hitem hkind =>
      absurd hkind (h item hitem).2, fun h => h⟩

theorem SameRecv.of_answer (h : StaticAnswer s s') : SameRecv s s' where
  connRecvWindow := by rw [h.conn]
  runtimeConfig := by rw [h.conn]
  localSettings := by rw [h.conn]
  actions := by rw [actionIncrements, h.pendingActions, actionIncrements]
  channel := by rw [channelIncrements, h.sendChannel, channelIncrements, Nat.add_zero]
  batch hbatch item hitem := by
    obtain ⟨frames, hframes, hkind⟩ := h.batch
    rw [hframes] at hitem
    exact (List.mem_append.1 hitem).elim (hbatch item) (hkind item)

theorem SameRecv.files : Files SameRecv := fun h =>
  SameRecv.of_answer (staticAnswer_file h)

theorem SameRecv.targets (s : Http2StreamManager) (files : StaticFiles) (streamId : UInt32)
    (payload : Bytes) : Targets SameRecv s files streamId payload :=
  fun _ h => SameRecv.of_answer (staticAnswer_target h)

theorem SameRecv.creates : Creates SameRecv := by
  intro s streamId
  unfold createStream
  dsimp only
  split <;> exact ⟨rfl, rfl, rfl, rfl, rfl, fun h => h⟩

theorem SameRecv.modifyStream (s : Http2StreamManager) (streamId : UInt32)
    (f : Http2Stream → Http2Stream) : SameRecv s (s.modifyStream streamId f) := by
  unfold Http2StreamManager.modifyStream onStream
  split <;> exact ⟨rfl, rfl, rfl, rfl, rfl, fun h => h⟩

theorem SameRecv.blocks : Blocks SameRecv where
  block s streamId _ := SameRecv.modifyStream s streamId _
  decoder _ _ := ⟨rfl, rfl, rfl, rfl, rfl, fun h => h⟩
  expecting _ _ _ := ⟨rfl, rfl, rfl, rfl, rfl, fun h => h⟩

theorem SameRecv.handleConnectionFrame (s : Http2StreamManager) (frame : Http2Frame) :
    SameRecv s (s.handleConnectionFrame frame) :=
  SameRecv.closed.handleConnectionFrame (fun s streamId _ => SameRecv.modifyStream s streamId _)
    (fun _ _ => ⟨rfl, rfl, rfl, rfl, rfl, fun h => h⟩)
    (fun _ _ => ⟨rfl, rfl, rfl, rfl, rfl, fun h => h⟩) s frame

theorem SameRecv.receive {files : StaticFiles}
    (hview : view.isData = false) : SameRecv s (s.receive files view) := by
  refine SameRecv.closed.receive SameRecv.files SameRecv.creates (fun _ => SameRecv.blocks)
    (fun htype => ?_) (SameRecv.targets _ files _ _) (fun _ => ?_)
    fun _ _ => SameRecv.handleConnectionFrame s _
  · simp [Http2RawFrameView.isData, htype] at hview
  exact SameRecv.closed.handleWindowUpdateFrame (fun s streamId _ => SameRecv.modifyStream s streamId _) s _ _

/-! ## The end of a batch -/

/-- A WINDOW_UPDATE action becomes a frame. -/
theorem processAction_announces (s : Http2StreamManager) (action : PendingAction) :
    Announces action.connIncrement s (s.processAction action) := by
  cases action with
  | sendGoaway error => exact SameRecv.closed.enqueueGoaway s error [] none
  | sendRstStream streamId error =>
    refine SameRecv.closed.trans (SameRecv.closed.onStream s streamId fun stream io =>
      ⟨[], (stream.onRstStreamSent_sends io).toSends⟩) (SameRecv.closed.enqueue _ fun item hitem => ?_)
    rw [List.mem_singleton.1 hitem, Http2OutgoingFrame.kind_rstStreamBytes]
    exact ⟨nofun, nofun⟩
  | sendWindowUpdate streamId increment =>
  refine ⟨rfl, rfl, rfl, rfl, ?_, fun h => h⟩
  simp [channelIncrements, processAction, enqueueSendFrame, enqueueOutgoing, Http2StreamIo.enqueue,
    Http2OutgoingFrame.connIncrement, PendingAction.connIncrement]

theorem processActions_announces (actions : List PendingAction) (s : Http2StreamManager) :
    Announces (actions.map (·.connIncrement)).sum s (actions.foldl processAction s) := by
  induction actions generalizing s with
  | nil => exact SameRecv.closed.refl s
  | cons action actions ih => exact (processAction_announces s action).trans (ih _)

/-! ## What is charged -/

/-- The balance goes down by `bytes`, and the window does not get negative. -/
structure Charges (bytes : Nat) (s s' : Http2StreamManager) : Prop where
  balance : s'.recvBalance = s.recvBalance - bytes
  runtimeConfig : s'.conn.runtimeConfig = s.conn.runtimeConfig
  localSettings : s'.conn.localSettings = s.conn.localSettings
  batch : s.QuietBatch → s'.QuietBatch
  nonneg : 0 ≤ s.conn.connRecvWindow.toInt → 0 ≤ s'.conn.connRecvWindow.toInt

theorem SameRecv.charges (h : SameRecv s s') : Charges 0 s s' where
  __ := h
  balance := by
    rw [recvBalance, h.connRecvWindow, connIncrements, h.actions, h.channel, recvBalance,
      connIncrements]
    omega
  nonneg hwin := by rwa [h.connRecvWindow]

theorem Charges.trans (h : Charges n s t) (h' : Charges m t u) : Charges (n + m) s u where
  balance := by
    rw [h'.balance, h.balance]
    omega
  runtimeConfig := h'.runtimeConfig.trans h.runtimeConfig
  localSettings := h'.localSettings.trans h.localSettings
  batch hbatch := h'.batch (h.batch hbatch)
  nonneg hwin := h'.nonneg (h.nonneg hwin)

theorem processPendingActions_charges (s : Http2StreamManager) :
    Charges 0 s s.processPendingActions := by
  have h := processActions_announces s.pendingActions { s with pendingActions := [] }
  exact {
    balance := by
      have hactions : s.processPendingActions.actionIncrements = 0 := h.actions
      have hchannel : s.processPendingActions.channelIncrements =
        s.channelIncrements + s.actionIncrements := h.channel
      have hwin : s.processPendingActions.conn.connRecvWindow = s.conn.connRecvWindow :=
        h.connRecvWindow
      rw [recvBalance, recvBalance, hwin, connIncrements, connIncrements, hactions, hchannel]
      omega
    runtimeConfig := h.runtimeConfig
    localSettings := h.localSettings
    batch := h.batch
    nonneg := fun hwin => h.connRecvWindow ▸ hwin }

theorem flushStaticResponseBatch_charges (hbatch : s.QuietBatch) :
    Charges 0 s s.flushStaticResponseBatch :=
  SameRecv.charges {
    connRecvWindow := rfl, runtimeConfig := rfl, localSettings := rfl, actions := rfl
    channel := channelIncrements_append (s := s) rfl fun item hitem hkind =>
      absurd hkind (hbatch item hitem)
    batch := fun _ _ h => (nomatch h) }

theorem endBatch_charges (hbatch : s.QuietBatch) : Charges 0 s s.endBatch := by
  unfold endBatch
  have hflush : Charges 0 s (if s.activeConnMode && !s.conn.isClient then s.flushStaticResponseBatch
      else s) := by
    split
    · exact flushStaticResponseBatch_charges hbatch
    exact (SameRecv.closed.refl s).charges
  have hrest : ∀ t : Http2StreamManager, SameRecv t t.flushActiveStreams.spawnHandlers := fun t =>
    SameRecv.closed.trans (SameRecv.closed.flushActiveStreams t)
      (SameRecv.closed.idle (by constructor <;> rfl))
  have hclose : ∀ t : Http2StreamManager,
      SameRecv t (if t.exitLoop then t.mapStreams (·.closeFrameQueue) else t) := by
    intro t
    split
    · exact SameRecv.closed.mapStreams t fun stream => stream.closeFrameQueue_core
    exact SameRecv.closed.refl t
  exact hflush.trans ((processPendingActions_charges _).trans
    ((hrest _).charges.trans (hclose _).charges))

/-! ## Received DATA -/

end Http2StreamManager

/-- The increments that the connection asks for keep its window below `2 ^ 31`. -/
def Http2Conn.FlowControlFits (conn : Http2Conn) : Prop :=
  ∀ (window streamWindow : Int32) (size : Nat), 0 ≤ window.toInt →
    window.toInt + (evaluateRecvWindowUpdate { conn with connRecvWindow := window } streamWindow size
      ).connIncrement.toNat < 2 ^ 31

theorem Http2Conn.FlowControlFits.congr {conn conn' : Http2Conn} (h : conn.FlowControlFits)
    (hconfig : conn'.runtimeConfig = conn.runtimeConfig)
    (hsettings : conn'.localSettings = conn.localSettings) : conn'.FlowControlFits := by
  intro window streamWindow size hwin
  have hupdate : evaluateRecvWindowUpdate { conn' with connRecvWindow := window } streamWindow size =
      evaluateRecvWindowUpdate { conn with connRecvWindow := window } streamWindow size := by
    simp only [evaluateRecvWindowUpdate, hconfig, hsettings]
  rw [hupdate]
  exact h window streamWindow size hwin

theorem toNat_toUInt32_of_nonneg {window : Int32} (h : 0 ≤ window.toInt) :
    (window.toUInt32.toNat : Int) = window.toInt := by
  have htoInt : window.toInt = window.toBitVec.toInt := rfl
  have htoNat : window.toUInt32.toNat = window.toBitVec.toNat := rfl
  have hlt := window.toBitVec.isLt
  rw [htoInt, BitVec.toInt_eq_toNat_cond] at h ⊢
  split at h <;> omega

/-- A window below the mark is raised to the target. -/
theorem increment_to_target {window : Int32} (hwin : 0 ≤ window.toInt)
    (htarget : target.toNat < 2 ^ 31) :
    window.toInt + (if window < (target * 3 / 4).toInt32 then target - window.toUInt32 else 0).toNat <
      2 ^ 31 := by
  have hmark : (target * 3 / 4).toNat ≤ target.toNat := by
    rw [UInt32.toNat_div, UInt32.toNat_mul]
    have hmod : target.toNat * 3 % 2 ^ 32 ≤ target.toNat * 3 := Nat.mod_le _ _
    have hfour : (4 : UInt32).toNat = 4 := rfl
    have hthree : (3 : UInt32).toNat = 3 := rfl
    rw [hfour, hthree]
    omega
  split
  · next h =>
    have hlt := Int32.lt_iff_toInt_lt.1 h
    rw [toInt_toInt32_of_lt (by omega)] at hlt
    have hnat := toNat_toUInt32_of_nonneg hwin
    rw [UInt32.toNat_sub_of_le _ _ (UInt32.le_iff_toNat_le.2 (by omega))]
    omega
  have hlt := window.toInt_lt
  rw [UInt32.toNat_zero]
  omega

/-- Without a strategy the targets only have to be values of an `int32_t`. -/
theorem Http2Conn.flowControlFits_of_target {conn : Http2Conn}
    (hstrat : conn.runtimeConfig.flowControlStrategy = none)
    (htarget : conn.runtimeConfig.flowControlTargetWindow.toNat < 2 ^ 31)
    (hinit : conn.localSettings.initialWindowSize.toNat < 2 ^ 31) : conn.FlowControlFits := by
  intro window streamWindow size hwin
  simp only [evaluateRecvWindowUpdate, hstrat]
  refine increment_to_target hwin ?_
  by_cases hzero : conn.runtimeConfig.flowControlTargetWindow = 0
  · rw [if_pos hzero]
    split
    · decide
    exact hinit
  rw [if_neg hzero, if_neg hzero]
  exact htarget

namespace Http2StreamManager

variable {streamId : UInt32}

theorem enqueueWindowUpdateAction_same (hid : streamId ≠ 0) (s : Http2StreamManager)
    (increment : UInt32) :
    SameRecv s (s.enqueueWindowUpdateAction streamId increment) := by
  refine ⟨rfl, rfl, rfl, ?_, rfl, fun h => h⟩
  simp [actionIncrements, enqueueWindowUpdateAction, enqueueAction, PendingAction.connIncrement, hid]

variable {s : Http2StreamManager}

/-- An increment is enqueued and taken into account. -/
theorem connWindowUpdate_charges (hwin : 0 ≤ s.conn.connRecvWindow.toInt)
    (hfits : s.conn.connRecvWindow.toInt + increment.toNat < 2 ^ 31) :
    Charges 0 s ((s.enqueueWindowUpdateAction 0 increment).adjustConnRecvWindow increment.toInt32) := by
  have hincr := toInt_toInt32_of_lt (show increment.toNat < 2 ^ 31 by omega)
  have hnew : (s.conn.connRecvWindow + increment.toInt32).toInt =
      s.conn.connRecvWindow.toInt + increment.toNat := by
    rw [toInt_add_of_lt (by omega) (by omega), hincr]
  exact {
    balance := by
      have hactions : ((s.enqueueWindowUpdateAction 0 increment).adjustConnRecvWindow
          increment.toInt32).actionIncrements = s.actionIncrements + increment.toNat := by
        simp [actionIncrements, enqueueWindowUpdateAction, enqueueAction, adjustConnRecvWindow,
          PendingAction.connIncrement]
      rw [recvBalance, recvBalance, connIncrements, connIncrements, hactions]
      have hchannel : ((s.enqueueWindowUpdateAction 0 increment).adjustConnRecvWindow
          increment.toInt32).channelIncrements = s.channelIncrements := rfl
      have hw : ((s.enqueueWindowUpdateAction 0 increment).adjustConnRecvWindow
          increment.toInt32).conn.connRecvWindow.toInt =
          s.conn.connRecvWindow.toInt + increment.toNat := hnew
      omega
    runtimeConfig := rfl
    localSettings := rfl
    batch := fun h => h
    nonneg := fun _ => by
      have hw : ((s.enqueueWindowUpdateAction 0 increment).adjustConnRecvWindow
          increment.toInt32).conn.connRecvWindow.toInt =
          s.conn.connRecvWindow.toInt + increment.toNat := hnew
      omega }

theorem applyRecvWindowUpdate_charges (hid : streamId ≠ 0) (hfits : s.conn.FlowControlFits)
    (hwin : 0 ≤ s.conn.connRecvWindow.toInt) (size : Nat) :
    Charges 0 s (s.applyRecvWindowUpdate streamId size) := by
  unfold applyRecvWindowUpdate
  split
  · exact (SameRecv.closed.refl s).charges
  next stream _ =>
  dsimp only
  have hconn : Charges 0 s (if (s.conn.evaluateRecvWindowUpdate stream.recvWindow size
      ).connIncrement > 0 then
      (s.enqueueWindowUpdateAction 0 (s.conn.evaluateRecvWindowUpdate stream.recvWindow size
        ).connIncrement).adjustConnRecvWindow
        (s.conn.evaluateRecvWindowUpdate stream.recvWindow size).connIncrement.toInt32 else s) := by
    split
    · exact connWindowUpdate_charges hwin
        (hfits s.conn.connRecvWindow stream.recvWindow size hwin)
    exact (SameRecv.closed.refl s).charges
  split
  · exact hconn.trans (SameRecv.closed.trans (enqueueWindowUpdateAction_same hid _ _)
      (SameRecv.modifyStream _ streamId _)).charges
  exact hconn

theorem adjustConnRecvWindow_charges
    (hbytes : bytes ≤ Http2Stream.windowSize s.conn.connRecvWindow) :
    Charges bytes s (s.adjustConnRecvWindow (-Int32.ofNat bytes)) := by
  have hnew : (s.conn.connRecvWindow + -Int32.ofNat bytes).toInt =
      s.conn.connRecvWindow.toInt - bytes := by
    rw [← Int32.sub_eq_add_neg, toInt_sub_ofNat hbytes]
  exact {
    balance := by
      show (s.conn.connRecvWindow + -Int32.ofNat bytes).toInt - s.connIncrements = _
      rw [hnew, recvBalance]
      omega
    runtimeConfig := rfl
    localSettings := rfl
    batch := fun h => h
    nonneg := fun hwin => by
      show 0 ≤ (s.conn.connRecvWindow + -Int32.ofNat bytes).toInt
      unfold Http2Stream.windowSize at hbytes
      omega }

theorem receiveData_charges (hid : streamId ≠ 0) (hfits : s.conn.FlowControlFits)
    (hwin : 0 ≤ s.conn.connRecvWindow.toInt)
    (hsize : data.length ≤ Http2Stream.windowSize s.conn.connRecvWindow) (endStream : Bool) :
    Charges data.length s (s.receiveData streamId data endStream) := by
  have hrecv : SameRecv s (s.onStream streamId (·.onDataReceived endStream)) :=
    SameRecv.closed.onStream s streamId fun stream io =>
      ⟨[], (stream.onDataReceived_sends endStream io).toSends⟩
  have hadjust := adjustConnRecvWindow_charges (s := s.onStream streamId (·.onDataReceived endStream))
    (hrecv.connRecvWindow ▸ hsize)
  have hstream := SameRecv.modifyStream ((s.onStream streamId (·.onDataReceived endStream)
    ).adjustConnRecvWindow (-Int32.ofNat data.length)) streamId
    (·.adjustRecvWindow (-Int32.ofNat data.length))
  have hdebit := (hrecv.charges.trans hadjust).trans hstream.charges
  have hupdate := applyRecvWindowUpdate_charges hid
    (hfits.congr hdebit.runtimeConfig hdebit.localSettings) (hdebit.nonneg hwin) data.length
  have happend := SameRecv.closed.appendStreamDataAndMarkEvents ((((s.onStream streamId
    (·.onDataReceived endStream)).adjustConnRecvWindow (-Int32.ofNat data.length)).modifyStream streamId
    (·.adjustRecvWindow (-Int32.ofNat data.length))).applyRecvWindowUpdate streamId data.length)
    streamId data endStream
  have hall := (hdebit.trans hupdate).trans happend.charges
  simp only [Nat.zero_add, Nat.add_zero] at hall
  exact hall

/-- No connection error was found: the reader goes on, and no GOAWAY waits. -/
structure Alive (s : Http2StreamManager) : Prop where
  reading : s.exitLoop = false
  noGoaway : ∀ error, .sendGoaway error ∉ s.pendingActions

instance Alive.decidable (s : Http2StreamManager) : Decidable s.Alive :=
  decidable_of_iff (s.exitLoop = false ∧ ∀ action ∈ s.pendingActions, ∀ error ∈
      match action with | .sendGoaway error => [error] | _ => [], action ≠ .sendGoaway error)
    ⟨fun h => ⟨h.1, fun error herr => h.2 _ herr error (List.mem_singleton.2 rfl) rfl⟩,
      fun h => ⟨h.reading, fun _ haction error _ heq => h.noGoaway error (heq ▸ haction)⟩⟩

theorem not_alive_enqueueGoawayAction : ¬ (s.enqueueGoawayAction error).Alive := fun h =>
  h.noGoaway error (mem_append_right _ (List.mem_singleton.2 rfl))

/-- The manager takes a DATA frame from the window as the peer does: it is empty, or it has no
padding and is on a stream that receives data and has the window for it. -/
def CreditsData (s : Http2StreamManager) (view : Http2RawFrameView) : Prop :=
  view.payload.length = 0 ∨
    view.header.isPadded = false ∧ view.streamId ≠ 0 ∧ ∃ stream,
      s.conn.getStream view.streamId = some stream ∧ stream.canReceiveData = true ∧
        view.payload.length ≤ Http2Stream.windowSize stream.recvWindow

instance CreditsData.decidable (s : Http2StreamManager) (view : Http2RawFrameView) :
    Decidable (s.CreditsData view) :=
  decidable_of_iff (view.payload.length = 0 ∨ view.header.isPadded = false ∧ view.streamId ≠ 0 ∧
      ∃ stream ∈ s.conn.getStream view.streamId, stream.canReceiveData = true ∧
        view.payload.length ≤ Http2Stream.windowSize stream.recvWindow)
    (by simp only [CreditsData, Option.mem_def])

variable {view : Http2RawFrameView}

theorem data_of_parsePayload (h : materializeFrameView view = .ok (.data frame)) :
    frame.data.length ≤ view.payload.length ∧
      (frame.data.length = view.payload.length ↔ view.header.isPadded = false) := by
  have htype : view.header.type = .Data := (header_of_materialize h).2.symm
  rw [materializeFrameView_eq, Http2FrameParser.parsePayload, htype] at h
  obtain ⟨frame', hparse, hframe⟩ := Http2FrameCodec.exists_of_map_ok h
  obtain rfl := Http2Frame.data.inj hframe
  unfold Http2DataFrame.parsePayload at hparse
  split at hparse
  · next hpadded =>
    split at hparse
    · cases hparse
    next padLength rest hpay =>
    split at hparse <;> cases hparse
    simp only [hpay, length_take, length_cons, hpadded]
    constructor
    · omega
    simp only [Bool.true_eq_false, iff_false]
    omega
  next hpadded =>
  cases hparse
  exact ⟨Nat.le_refl _, iff_of_true rfl (by simpa using hpadded)⟩

theorem handleDataFrame_charges (hid : view.streamId ≠ 0)
    (hlen : frame.data.length ≤ view.payload.length)
    (hpadded : frame.data.length = view.payload.length ↔ view.header.isPadded = false)
    (hfits : s.conn.FlowControlFits) (hwin : 0 ≤ s.conn.connRecvWindow.toInt)
    (halive : (s.handleDataFrame frame view.streamId).Alive) :
    ∃ bytes ≤ view.payload.length, Charges bytes s (s.handleDataFrame frame view.streamId) ∧
      (bytes = view.payload.length ↔ s.CreditsData view) := by
  have hfind := SameRecv.closed.findAttachedStream s view.streamId
  unfold handleDataFrame at halive ⊢
  rw [if_neg hid] at halive ⊢
  dsimp only at halive ⊢
  -- a frame that is answered with RST_STREAM is not charged
  have hreset : ∀ error, (view.payload.length = 0 ↔ s.CreditsData view) →
      ∃ bytes ≤ view.payload.length, Charges bytes s
        ((s.findAttachedStream view.streamId).enqueueRstStreamAction view.streamId error) ∧
        (bytes = view.payload.length ↔ s.CreditsData view) := fun error hcredits =>
    ⟨0, Nat.zero_le _, (SameRecv.closed.trans hfind
      (SameRecv.closed.enqueueRstStreamAction _ view.streamId error)).charges,
      eq_comm.trans hcredits⟩
  cases hstream : s.conn.getStream view.streamId with
  | none =>
    rw [findAttachedStream_none hstream] at halive hreset ⊢
    rw [hstream] at halive ⊢
    refine hreset _ ⟨.inl, fun h => h.resolve_right ?_⟩
    rintro ⟨-, -, stream, hget, -⟩
    exact nomatch hstream.symm.trans hget
  | some stream =>
  obtain ⟨stream', hstream', hrecv, hcan⟩ := getStream_findAttachedStream_receives hstream
  rw [hstream'] at halive ⊢
  dsimp only at halive ⊢
  have hcredits : s.CreditsData view ↔ view.payload.length = 0 ∨ view.header.isPadded = false ∧
      stream'.canReceiveData = true ∧
        view.payload.length ≤ Http2Stream.windowSize stream'.recvWindow := by
    rw [hrecv, hcan]
    refine or_congr_right (and_congr_right fun _ => ⟨?_, fun h => ⟨hid, stream, hstream, h⟩⟩)
    rintro ⟨-, other, hother, h⟩
    rwa [Option.some.inj (hstream.symm.trans hother)]
  split
  · next hreceive =>
    refine hreset _ (hcredits.trans ?_).symm
    simp only [Bool.not_eq_true'] at hreceive
    simp [hreceive]
  next hreceive =>
  rw [if_neg hreceive] at halive
  split
  · next hover =>
    rw [if_pos hover] at halive
    exact absurd halive not_alive_enqueueGoawayAction
  next hover =>
  split
  · next hstreamOver =>
    refine hreset _ (hcredits.trans ⟨fun h => h.resolve_right ?_, .inl⟩).symm
    rintro ⟨hplain, -, hle⟩
    rw [← hpadded.2 hplain] at hle
    exact absurd hstreamOver (Nat.not_lt.2 hle)
  next hstreamOver =>
  refine ⟨frame.data.length, hlen, ?_, ?_⟩
  · have hdata := receiveData_charges hid
      (hfits.congr hfind.runtimeConfig hfind.localSettings)
      (hfind.connRecvWindow ▸ hwin) (Nat.not_lt.1 hover) frame.header.isEndStream
    have hafter := SameRecv.closed.trans (SameRecv.closed.pushStreamFrameIfNeeded
      ((s.findAttachedStream view.streamId).receiveData view.streamId frame.data
        frame.header.isEndStream) view.streamId (.data frame))
      (SameRecv.closed.tryRetireClientStream _ view.streamId)
    have hall := (hfind.charges.trans hdata).trans hafter.charges
    rwa [Nat.zero_add, Nat.add_zero] at hall
  rw [hcredits]
  simp only [Bool.not_eq_true'] at hreceive
  constructor
  · intro h
    refine .inr ⟨hpadded.1 h, by simpa using hreceive, ?_⟩
    rw [← h]
    exact Nat.not_lt.1 hstreamOver
  rintro (h | ⟨h, -⟩)
  · omega
  exact hpadded.2 h

theorem receive_charges (hview : view.isData = true)
    (hfits : s.conn.FlowControlFits) (hwin : 0 ≤ s.conn.connRecvWindow.toInt)
    (hreading : s.exitLoop = false) (halive : (s.receive files view).Alive) :
    ∃ bytes ≤ view.payload.length, Charges bytes s (s.receive files view) ∧
      (bytes = view.payload.length ↔ s.CreditsData view) := by
  have htype : view.header.type = .Data := by simpa [Http2RawFrameView.isData] using hview
  have hcases := receive_cases s files view
  generalize s.receive files view = s' at hcases halive ⊢
  cases hcases with
  | ignored hexit => cases hexit.symm.trans hreading
  | stopped error => cases halive.reading
  | connection hframe hconn =>
    simp [isConnectionFrame, (header_of_materialize hframe).2, htype] at hconn
  | rawHeaders hhdrs => simp [Http2RawFrameView.isHeaders, htype] at hhdrs
  | rawContinuation hcontinuation =>
    simp [Http2RawFrameView.isContinuation, htype] at hcontinuation
  | rawData hact _ _ h =>
    have hpadded : view.header.isPadded = false := by
      refine Bool.eq_false_iff.2 fun hpadded => ?_
      rw [handleRawDataFrameView, if_pos hpadded] at h
      cases h
    rw [handleDataFrame_eq_raw hact hpadded] at h
    obtain rfl := Option.some.inj h
    by_cases hid : view.streamId = 0
    · rw [handleDataFrame, if_pos hid] at halive
      exact absurd halive not_alive_enqueueGoawayAction
    exact handleDataFrame_charges hid (Nat.le_refl _) (iff_of_true rfl hpadded) hfits hwin halive
  | @stream frame hframe _ =>
  obtain ⟨hhdr, hkind⟩ := header_of_materialize hframe
  rw [htype] at hkind
  cases frame with
  | data frame =>
    have hid' : frame.header.streamId = view.streamId := congrArg (·.streamId) hhdr
    unfold dispatchStreamFrame at halive ⊢
    dsimp only [Http2Frame.header] at halive ⊢
    rw [hid'] at halive ⊢
    split
    · next hid =>
      refine ⟨0, Nat.zero_le _, (SameRecv.closed.refl s).charges, ?_⟩
      exact ⟨fun h => .inl h.symm, fun h => (h.resolve_right fun h => h.2.1 hid).symm⟩
    next hid =>
    rw [if_neg hid] at halive
    obtain ⟨hlen, hpadded⟩ := data_of_parsePayload hframe
    exact handleDataFrame_charges hid hlen hpadded hfits hwin halive
  | _ => cases hkind

/-! ## Steps -/

/-- The length of a DATA frame as the peer counts it. -/
def Event.dataLength : Event → Nat
  | .receive view _ => if view.isData then view.payload.length else 0
  | _ => 0

variable (s)

/-- A DATA frame of this event is taken from the window as the peer does. -/
def Credits : Event → Prop
  | .receive view _ => view.isData = true → s.CreditsData view
  | _ => True

/-- Stream `0` is the connection: no application calls it. -/
def OffZero : Event → Prop
  | .call streamId _ => streamId ≠ 0
  | .callDetached index _ => ∀ stream, s.detached[index]? = some stream → stream.streamId ≠ 0
  | _ => True

theorem completeStaticFileBodyRead_same (read : StaticFileBodyRead)
    (file cached : Option Bytes) : SameRecv s (s.completeStaticFileBodyRead read file cached) := by
  unfold completeStaticFileBodyRead
  split
  · exact SameRecv.closed.enqueueSendFrame s nofun nofun
  refine ⟨rfl, rfl, rfl, rfl, channelIncrements_append rfl fun item hitem hkind => ?_, fun h => h⟩
  rcases List.mem_cons.1 hitem with rfl | hitem
  · exact nomatch hkind
  rw [(kind_dataFrames hitem).1] at hkind
  exact nomatch hkind

variable {s}

theorem callDetached_same
    (h : s.OffZero (.callDetached index call)) : SameRecv s (s.callDetached index call) := by
  unfold callDetached
  split
  · exact SameRecv.closed.refl s
  next stream hstream =>
  obtain ⟨out, hemits⟩ := call.run_emits stream s.io
  refine ⟨rfl, rfl, rfl, rfl, channelIncrements_append hemits.channel fun item hitem hkind => ?_,
    fun h => h⟩
  rw [hemits.own item hitem (.inr hkind)]
  exact h stream hstream

theorem call_same (hid : streamId ≠ 0) (call : StreamCall)
    : SameRecv s (s.onStream streamId call.run) := by
  cases hstream : s.conn.getStream streamId with
  | none =>
    rw [onStream_none hstream]
    exact SameRecv.closed.refl s
  | some stream =>
  obtain ⟨out, hemits⟩ := call.run_emits stream s.io
  refine SameRecv.of_emits hstream hemits fun item hitem hkind => ?_
  rw [hemits.own item hitem (.inr hkind), Http2Conn.streamId_of_getStream hstream]
  exact hid

/-- What a run needs of the configuration, and what it keeps. -/
structure RecvInv (s : Http2StreamManager) : Prop where
  fits : s.conn.FlowControlFits
  nonneg : 0 ≤ s.conn.connRecvWindow.toInt
  batch : s.QuietBatch

theorem Charges.inv (h : Charges bytes s s') (hinv : s.RecvInv) : s'.RecvInv :=
  ⟨hinv.fits.congr h.runtimeConfig h.localSettings, h.nonneg hinv.nonneg, h.batch hinv.batch⟩

theorem step_charges (hinv : s.RecvInv) (hreading : s.exitLoop = false)
    (hoff : s.OffZero event) (halive : (s.step event).Alive) :
    ∃ bytes ≤ event.dataLength, Charges bytes s (s.step event) ∧
      (bytes = event.dataLength ↔ s.Credits event) := by
  have hsame (hlen : event.dataLength = 0) (hcredits : s.Credits event)
      (h : Charges 0 s (s.step event)) : ∃ bytes ≤ event.dataLength, Charges bytes s (s.step event) ∧
        (bytes = event.dataLength ↔ s.Credits event) :=
    ⟨0, Nat.zero_le _, h, iff_of_true hlen.symm hcredits⟩
  cases event with
  | receive view files =>
    cases hview : view.isData with
    | true =>
      have hlen : (Event.receive view files).dataLength = view.payload.length := if_pos hview
      obtain ⟨bytes, hle, hcharges, hiff⟩ :=
        receive_charges hview hinv.fits hinv.nonneg hreading halive
      rw [hlen]
      exact ⟨bytes, hle, hcharges, hiff.trans ⟨fun h _ => h, fun h => h hview⟩⟩
    | false =>
    have hlen : (Event.receive view files).dataLength = 0 := if_neg (by simp [hview])
    exact hsame hlen (fun h => by cases hview.symm.trans h) (SameRecv.receive hview).charges
  | endBatch => exact hsame rfl trivial (endBatch_charges hinv.batch)
  | drainRetiredStreams => exact hsame rfl trivial (SameRecv.closed.drainRetiredStreams s).charges
  | staticFileRead index file cached =>
    refine hsame rfl trivial (SameRecv.charges ?_)
    dsimp only [Http2StreamManager.step]
    split
    · exact SameRecv.closed.refl s
    split
    · have herase : SameRecv s { s with staticFileReads := s.staticFileReads.eraseIdx index } :=
        ⟨rfl, rfl, rfl, rfl, rfl, fun h => h⟩
      exact SameRecv.closed.trans herase (completeStaticFileBodyRead_same _ _ file cached)
    exact SameRecv.closed.refl s
  | allocateStream =>
    exact hsame rfl trivial (SameRecv.closed.allocateStream SameRecv.creates s).charges
  | call streamId call => exact hsame rfl trivial (call_same hoff call).charges
  | callDetached index call => exact hsame rfl trivial (callDetached_same hoff).charges
  | release index => exact hsame rfl trivial (SameRecv.closed.idle (by constructor <;> rfl)).charges
  | finishHandler streamId started =>
    exact hsame rfl trivial (SameRecv.closed.finishHandler s streamId started).charges
  | sendGoaway error debug lastStreamId =>
    exact hsame rfl trivial (SameRecv.closed.enqueueGoaway s error debug lastStreamId).charges
  | rejectNewStreams => exact hsame rfl trivial (SameRecv.closed.idle (by constructor <;> rfl)).charges
  | rehash streams =>
  refine hsame rfl trivial (SameRecv.charges ?_)
  show SameRecv s (if streams.Perm s.conn.streams then _ else s)
  split <;> exact ⟨rfl, rfl, rfl, rfl, rfl, fun h => h⟩

/-! ## Runs -/

/-- The DATA that the peer has sent, as it counts it. -/
def dataReceived (events : List Event) : Nat := (events.map (·.dataLength)).sum

/-- No step ends in a connection error, and no call is on stream `0`. -/
def LiveRun : Http2StreamManager → List Event → Prop
  | _, [] => True
  | s, event :: events => s.OffZero event ∧ (s.step event).Alive ∧ LiveRun (s.step event) events

/-- Every DATA frame of the run is taken from the window as the peer does. -/
def CreditedRun : Http2StreamManager → List Event → Prop
  | _, [] => True
  | s, event :: events => s.Credits event ∧ CreditedRun (s.step event) events

theorem run_charges (hinv : s.RecvInv) (hreading : s.exitLoop = false) (hlive : s.LiveRun events) :
    ∃ bytes ≤ dataReceived events, Charges bytes s (s.run events) ∧
      (bytes = dataReceived events ↔ s.CreditedRun events) := by
  induction events generalizing s with
  | nil => exact ⟨0, Nat.le_refl _, (SameRecv.closed.refl s).charges, iff_of_true rfl trivial⟩
  | cons event events ih =>
  obtain ⟨hoff, halive, hlive⟩ := hlive
  obtain ⟨n, hn, hstep, hcredits⟩ := step_charges hinv hreading hoff halive
  obtain ⟨m, hm, hrun, hcredited⟩ := ih (hstep.inv hinv) halive.reading hlive
  have hsum : dataReceived (event :: events) = event.dataLength + dataReceived events :=
    sum_cons
  refine ⟨n + m, by omega, hstep.trans hrun, ?_⟩
  rw [CreditedRun, ← hcredits, ← hcredited, hsum]
  omega

theorem target_of_lt {target : UInt32} (hwin : window = 65535)
    (h : target.toInt32 > window) : 65535 < target.toNat ∧ target.toNat < 2 ^ 31 := by
  have hlt : (65535 : Int) < target.toInt32.toInt := by
    have h := Int32.lt_iff_toInt_lt.1 h
    rw [hwin] at h
    exact h
  have htoInt : target.toInt32.toInt = target.toBitVec.toInt := rfl
  have hnat : target.toBitVec.toNat = target.toNat := target.toNat_toBitVec
  rw [htoInt, BitVec.toInt_eq_toNat_cond] at hlt
  split at hlt <;> omega

theorem prepareForStart_charges {conn : Http2Conn} (hconn : conn.connRecvWindow = 65535)
    (hfits : conn.FlowControlFits) (activeConnMode : Bool) :
    (prepareForStart conn activeConnMode).recvBalance = 65535 ∧
      (prepareForStart conn activeConnMode).RecvInv := by
  have hwin : conn.connRecvWindow.toInt = 65535 := by rw [hconn]; decide
  have hnonneg : (0 : Int) ≤ conn.connRecvWindow.toInt := by omega
  unfold prepareForStart
  dsimp only
  split
  · next h =>
    obtain ⟨-, -, htarget⟩ := h
    obtain ⟨hlow, hhigh⟩ := target_of_lt hconn htarget
    have hincr : (conn.runtimeConfig.flowControlTargetWindow - conn.connRecvWindow.toUInt32
        ).toNat = conn.runtimeConfig.flowControlTargetWindow.toNat - 65535 := by
      have hwin : conn.connRecvWindow.toUInt32.toNat = 65535 := by rw [hconn]; decide
      rw [UInt32.toNat_sub_of_le _ _ (UInt32.le_iff_toNat_le.2 (by omega)), hwin]
    have hcharges := connWindowUpdate_charges
      (s := { conn, activeConnMode, nextLocalStreamId := if conn.isClient then 3 else 2 }) hnonneg
      (show conn.connRecvWindow.toInt + (conn.runtimeConfig.flowControlTargetWindow -
        conn.connRecvWindow.toUInt32).toNat < 2 ^ 31 by rw [hincr, hwin]; omega)
    refine ⟨hcharges.balance.trans ?_, hcharges.inv ⟨hfits, hnonneg, fun _ h => nomatch h⟩⟩
    show conn.connRecvWindow.toInt - 0 - 0 = 65535
    rw [hwin]
    rfl
  refine ⟨?_, hfits, hnonneg, fun _ h => nomatch h⟩
  show conn.connRecvWindow.toInt - 0 = 65535
  rw [hwin]
  rfl

/-- Along every run without connection error the receive window is what the peer computes for its
send window exactly if every DATA frame of the run meets `CreditsData`. -/
theorem connRecvWindow_agrees {conn : Http2Conn} (hconn : conn.connRecvWindow = 65535)
    (hfits : conn.FlowControlFits) (activeConnMode : Bool) {events : List Event}
    (hlive : (prepareForStart conn activeConnMode).LiveRun events) :
    let s := (prepareForStart conn activeConnMode).run events
    s.conn.connRecvWindow.toInt = 65535 + s.connIncrements - dataReceived events ↔
      (prepareForStart conn activeConnMode).CreditedRun events := by
  obtain ⟨hbalance, hinv⟩ := prepareForStart_charges hconn hfits activeConnMode
  have hreading : (prepareForStart conn activeConnMode).exitLoop = false := by
    unfold prepareForStart
    dsimp only
    split <;> rfl
  obtain ⟨bytes, hle, hcharges, hiff⟩ := run_charges hinv hreading hlive
  have hrun := hcharges.balance
  rw [hbalance, recvBalance] at hrun
  dsimp only
  rw [← hiff]
  omega

/-- One byte of data for stream `1`. -/
def dataView : Http2RawFrameView where
  bytes := [0, 0, 1, 0, 0, 0, 0, 0, 1, 97]
  complete := by decide +kernel

/-- `:method: GET` on stream `1`, which leaves it open, and one byte of data for it. -/
def postEvents : List Event := [.receive methodView {}, .receive dataView {}, .endBatch]

theorem connRecvWindow_agrees_post :
    let s := (prepareForStart {} true).run postEvents
    s.conn.connRecvWindow.toInt = 65535 + s.connIncrements - dataReceived postEvents := by
  refine (connRecvWindow_agrees rfl (Http2Conn.flowControlFits_of_target rfl (by decide) (by decide))
    true ?_).2 ?_
  · exact ⟨trivial, by decide +kernel, trivial, by decide +kernel, trivial, by decide +kernel, trivial⟩
  have hhdrs : methodView.isData = false := by decide +kernel
  exact ⟨fun h => absurd (hhdrs.symm.trans h) nofun, fun _ => by decide +kernel, trivial, trivial⟩

/-- Data for a stream that is not in the table is not taken from the window. -/
theorem unknownStream_leaks :
    ¬ ∀ events, (prepareForStart {} true).LiveRun events →
      let s := (prepareForStart {} true).run events
      s.conn.connRecvWindow.toInt = 65535 + s.connIncrements - dataReceived events := by
  intro hclaim
  have hlaw := hclaim [.receive dataView {}] ⟨trivial, by decide +kernel, trivial⟩
  exact absurd hlaw (by decide +kernel)

end Http2StreamManager

end Galay.Http2
