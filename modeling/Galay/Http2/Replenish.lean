import Galay.Http2.RecvWindow

/-!
# How the receive windows are replenished

A window below its mark is raised to its target. The mark is three quarters of the target, computed in
32 bits: from a third of `2 ^ 32` on it is too low by `2 ^ 30`, and the window of a target just
above that is never raised.
-/

namespace Galay.Http2

/-! ## The arithmetic of one window -/

/-- The mark of a target, as it is computed. -/
def lowWatermark (target : UInt32) : Int32 := (target * 3 / 4).toInt32

/-- A window after the increment it is given. -/
def replenished (target : UInt32) (window : Int32) : Int32 :=
  window + (if window < lowWatermark target then target - window.toUInt32 else 0).toInt32

/-- The mark is exact, and not zero. -/
def TargetFits (target : UInt32) : Prop := 1 < target.toNat ∧ target.toNat * 3 < 2 ^ 32

variable {target : UInt32}

theorem lowWatermark_toInt (h : target.toNat < 2 ^ 31) :
    (lowWatermark target).toInt = ((target.toNat * 3 % 2 ^ 32 / 4 : Nat) : Int) := by
  have hnat : (target * 3 / 4).toNat = target.toNat * 3 % 2 ^ 32 / 4 := by
    rw [UInt32.toNat_div, UInt32.toNat_mul]
    rfl
  rw [lowWatermark, toInt_toInt32_of_lt (by omega), hnat]

theorem lowWatermark_of_fits (h : target.toNat * 3 < 2 ^ 32) :
    (lowWatermark target).toInt = ((target.toNat * 3 / 4 : Nat) : Int) := by
  rw [lowWatermark_toInt (by omega), Nat.mod_eq_of_lt h]

variable {window : Int32}

theorem increment_toNat (hwin : 0 ≤ window.toInt) (hle : window.toInt ≤ target.toNat) :
    (target - window.toUInt32).toNat = target.toNat - window.toInt.toNat := by
  have hnat := toNat_toUInt32_of_nonneg hwin
  rw [UInt32.toNat_sub_of_le _ _ (UInt32.le_iff_toNat_le.2 (by omega))]
  omega

theorem replenished_of_low (htarget : target.toNat < 2 ^ 31) (hwin : 0 ≤ window.toInt)
    (hlow : window < lowWatermark target) :
    (replenished target window).toInt = target.toNat := by
  have hmark := lowWatermark_toInt htarget
  have hlt := Int32.lt_iff_toInt_lt.1 hlow
  have hmod : target.toNat * 3 % 2 ^ 32 ≤ target.toNat * 3 := Nat.mod_le _ _
  have hle : window.toInt ≤ target.toNat := by omega
  have hincr := increment_toNat hwin hle
  have htoInt : (target - window.toUInt32).toInt32.toInt = (target - window.toUInt32).toNat :=
    toInt_toInt32_of_lt (by omega)
  rw [replenished, if_pos hlow, toInt_add_of_lt (by omega) (by omega), htoInt]
  omega

theorem replenished_of_high (hhigh : ¬ window < lowWatermark target) :
    replenished target window = window := by
  rw [replenished, if_neg hhigh]
  exact Int32.add_zero window

/-- A window that was debited and evaluated: it has at least three quarters of its target, no more
than it had or the target, and something; nothing was cut off on the way. -/
structure Replenished (target : UInt32) (window : Int32) (size : Nat) (window' : Int32) : Prop where
  mark : (lowWatermark target).toInt = ((target.toNat * 3 / 4 : Nat) : Int)
  increment : window.toInt - size < (lowWatermark target).toInt →
    ((target - (window - Int32.ofNat size).toUInt32).toInt32.toInt : Int) =
      target.toNat - (window.toInt - size)
  low : ((target.toNat * 3 / 4 : Nat) : Int) ≤ window'.toInt
  high : window'.toInt ≤ max window.toInt target.toNat
  positive : 0 < window'.toInt

theorem debit_toInt {size : Nat} (hsize : (size : Int) ≤ window.toInt) :
    (window - Int32.ofNat size).toInt = window.toInt - size := by
  refine toInt_sub_ofNat ?_
  unfold Http2Stream.windowSize
  omega

theorem replenished_spec {size : Nat} (hfits : TargetFits target)
    (hsize : (size : Int) ≤ window.toInt) :
    Replenished target window size (replenished target (window - Int32.ofNat size)) := by
  obtain ⟨hpos, hmul⟩ := hfits
  have hmark := lowWatermark_of_fits hmul
  have hdebit := debit_toInt hsize
  have htarget : target.toNat < 2 ^ 31 := by omega
  have hnonneg : 0 ≤ (window - Int32.ofNat size).toInt := by omega
  refine ⟨hmark, fun hlow => ?_, ?_, ?_, ?_⟩
  · have hle : (window - Int32.ofNat size).toInt ≤ target.toNat := by omega
    have hincr := increment_toNat hnonneg hle
    rw [toInt_toInt32_of_lt (by omega)]
    omega
  all_goals
    by_cases hlow : window - Int32.ofNat size < lowWatermark target
    · have hraised := replenished_of_low htarget hnonneg hlow
      omega
    have hkept := replenished_of_high hlow
    have hge := Int32.lt_iff_toInt_lt.not.1 hlow
    rw [hkept]
    omega

/-- For a target that does not fit there is a window that is left too low. -/
theorem exists_not_replenished (hne : target ≠ 0) (htarget : target.toNat < 2 ^ 31)
    (hfits : ¬ TargetFits target) :
    ∃ window : Int32, 0 ≤ window.toInt ∧ ¬ Replenished target window 0 (replenished target window) := by
  have hpos : 0 < target.toNat := Nat.pos_of_ne_zero fun h => hne (UInt32.toNat_inj.1 h)
  have hmark := lowWatermark_toInt htarget
  by_cases hone : target.toNat = 1
  · refine ⟨0, by decide, fun h => ?_⟩
    have hkept : replenished target 0 = 0 := by
      refine replenished_of_high fun hlow => ?_
      have := Int32.lt_iff_toInt_lt.1 hlow
      rw [hmark, hone, Int32.toInt_zero] at this
      omega
    have := h.positive
    rw [hkept, Int32.toInt_zero] at this
    omega
  have hmul : 2 ^ 32 ≤ target.toNat * 3 := by
    unfold TargetFits at hfits
    omega
  -- one below three quarters is above the mark
  have hwin : (Int32.ofNat (target.toNat * 3 / 4 - 1)).toInt =
      ((target.toNat * 3 / 4 - 1 : Nat) : Int) := Int32.toInt_ofNat_of_lt (by omega)
  refine ⟨Int32.ofNat (target.toNat * 3 / 4 - 1), by omega, fun h => ?_⟩
  have hkept : replenished target (Int32.ofNat (target.toNat * 3 / 4 - 1)) =
      Int32.ofNat (target.toNat * 3 / 4 - 1) := by
    refine replenished_of_high fun hlow => ?_
    have := Int32.lt_iff_toInt_lt.1 hlow
    omega
  have := h.low
  rw [hkept] at this
  omega

/-! ## The manager -/

namespace Http2Conn

variable (conn : Http2Conn)

/-- The targets of `evaluateRecvWindowUpdate`. -/
def connRecvTarget : UInt32 :=
  let target :=
    if conn.runtimeConfig.flowControlTargetWindow = 0 then conn.localSettings.initialWindowSize
    else conn.runtimeConfig.flowControlTargetWindow
  if target = 0 then kDefaultInitialWindowSize else target

def streamRecvTarget : UInt32 :=
  if conn.localSettings.initialWindowSize = 0 then kDefaultInitialWindowSize
  else conn.localSettings.initialWindowSize

theorem evaluateRecvWindowUpdate_default {conn : Http2Conn}
    (h : conn.runtimeConfig.flowControlStrategy = none) (window : Int32) (size : Nat) :
    conn.evaluateRecvWindowUpdate window size =
      { connIncrement := if conn.connRecvWindow < lowWatermark conn.connRecvTarget then
          conn.connRecvTarget - conn.connRecvWindow.toUInt32 else 0
        streamIncrement := if window < lowWatermark conn.streamRecvTarget then
          conn.streamRecvTarget - window.toUInt32 else 0 } := by
  unfold evaluateRecvWindowUpdate
  rw [h]
  rfl

theorem connRecvTarget_ne : conn.connRecvTarget ≠ 0 := by
  unfold connRecvTarget
  generalize (if conn.runtimeConfig.flowControlTargetWindow = 0 then
    conn.localSettings.initialWindowSize else conn.runtimeConfig.flowControlTargetWindow) = target
  show (if target = 0 then kDefaultInitialWindowSize else target) ≠ 0
  split
  · decide
  assumption

theorem streamRecvTarget_ne : conn.streamRecvTarget ≠ 0 := by
  unfold streamRecvTarget
  split
  · decide
  assumption

theorem streamRecvTarget_lt {conn : Http2Conn}
    (hinit : conn.localSettings.initialWindowSize.toNat < 2 ^ 31) :
    conn.streamRecvTarget.toNat < 2 ^ 31 := by
  unfold streamRecvTarget
  split
  · exact Nat.lt_of_le_of_lt (Nat.le_refl 65535) (by decide)
  exact hinit

theorem connRecvTarget_lt {conn : Http2Conn}
    (htarget : conn.runtimeConfig.flowControlTargetWindow.toNat < 2 ^ 31)
    (hinit : conn.localSettings.initialWindowSize.toNat < 2 ^ 31) :
    conn.connRecvTarget.toNat < 2 ^ 31 := by
  have hlt : (if conn.runtimeConfig.flowControlTargetWindow = 0 then
      conn.localSettings.initialWindowSize
      else conn.runtimeConfig.flowControlTargetWindow).toNat < 2 ^ 31 := by
    split
    · exact hinit
    exact htarget
  unfold connRecvTarget
  generalize (if conn.runtimeConfig.flowControlTargetWindow = 0 then
    conn.localSettings.initialWindowSize
    else conn.runtimeConfig.flowControlTargetWindow) = target at hlt
  show (if target = 0 then kDefaultInitialWindowSize else target).toNat < 2 ^ 31
  split
  · exact Nat.lt_of_le_of_lt (Nat.le_refl 65535) (by decide)
  exact hlt

theorem recvTargets_congr {conn conn' : Http2Conn}
    (hconfig : conn'.runtimeConfig = conn.runtimeConfig)
    (hsettings : conn'.localSettings = conn.localSettings) :
    conn'.connRecvTarget = conn.connRecvTarget ∧ conn'.streamRecvTarget = conn.streamRecvTarget := by
  unfold connRecvTarget streamRecvTarget
  rw [hconfig, hsettings]
  exact ⟨rfl, rfl⟩

end Http2Conn

namespace Http2StreamManager

/-- A step that leaves the receive windows of the connection and of a stream alone. -/
structure KeepsWindows (streamId : UInt32) (s s' : Http2StreamManager) : Prop where
  same : SameRecv s s'
  stream : ∀ stream, s.conn.getStream streamId = some stream →
    ∃ stream', s'.conn.getStream streamId = some stream' ∧
      stream'.recvWindow = stream.recvWindow ∧ stream'.canReceiveData = stream.canReceiveData

theorem KeepsWindows.refl (streamId : UInt32) (s : Http2StreamManager) : KeepsWindows streamId s s :=
  ⟨SameRecv.closed.refl s, fun stream h => ⟨stream, h, rfl, rfl⟩⟩

theorem KeepsWindows.trans
    (h : KeepsWindows streamId s t) (h' : KeepsWindows streamId t u) : KeepsWindows streamId s u where
  same := SameRecv.closed.trans h.same h'.same
  stream stream hstream := by
    obtain ⟨stream', hstream', hwin, hreceive⟩ := h.stream stream hstream
    obtain ⟨stream'', hstream'', hwin', hreceive'⟩ := h'.stream stream' hstream'
    exact ⟨stream'', hstream'', hwin'.trans hwin, hreceive'.trans hreceive⟩

theorem KeepsWindows.modifyStream (s : Http2StreamManager) (streamId : UInt32)
    (hid : ∀ stream, (f stream).streamId = stream.streamId)
    (hwin : ∀ stream, (f stream).recvWindow = stream.recvWindow)
    (hst : ∀ stream, (f stream).state = stream.state) :
    KeepsWindows streamId s (s.modifyStream streamId f) := by
  refine ⟨SameRecv.modifyStream s streamId f, fun stream hstream => ?_⟩
  refine ⟨f stream, getStream_onStream (fun stream _ => hid stream) hstream, hwin stream, ?_⟩
  unfold Http2Stream.canReceiveData
  rw [hst]

theorem KeepsWindows.markStreamActive (s : Http2StreamManager) (streamId events : UInt32) :
    KeepsWindows streamId s (s.markStreamActive streamId events) := by
  have hmark : KeepsWindows streamId s
      (s.modifyStream streamId (·.markActive events)) :=
    .modifyStream s streamId (fun _ => rfl) (fun _ => rfl) fun _ => rfl
  refine ⟨SameRecv.closed.markStreamActive s streamId events, ?_⟩
  unfold Http2StreamManager.markStreamActive
  split
  · exact (KeepsWindows.refl streamId s).stream
  split
  · exact (KeepsWindows.refl streamId s).stream
  dsimp only
  split
  · exact hmark.stream
  exact hmark.stream

theorem KeepsWindows.appendStreamDataAndMarkEvents (s : Http2StreamManager) (streamId : UInt32)
    (data : Bytes) (endStream : Bool) :
    KeepsWindows streamId s (s.appendStreamDataAndMarkEvents streamId data endStream) := by
  unfold Http2StreamManager.appendStreamDataAndMarkEvents
  split
  · refine (KeepsWindows.modifyStream s streamId ?_ ?_ ?_).trans (.markStreamActive _ streamId _)
    all_goals
      intro stream
      cases endStream <;> rfl
  refine (KeepsWindows.modifyStream s streamId ?_ ?_ ?_).trans (.markStreamActive _ streamId _)
  all_goals
    intro stream
    cases endStream <;> rfl

/-- The windows after DATA. -/
structure DataWindows (streamId : UInt32) (stream : Http2Stream) (size : Nat) (endStream : Bool)
    (s s' : Http2StreamManager) : Prop where
  runtimeConfig : s'.conn.runtimeConfig = s.conn.runtimeConfig
  localSettings : s'.conn.localSettings = s.conn.localSettings
  conn : s'.conn.connRecvWindow =
    replenished s.conn.connRecvTarget (s.conn.connRecvWindow - Int32.ofNat size)
  stream : ∃ stream', s'.conn.getStream streamId = some stream' ∧
    stream'.recvWindow = replenished s.conn.streamRecvTarget (stream.recvWindow - Int32.ofNat size) ∧
    (endStream = false → stream'.canReceiveData = stream.canReceiveData)

theorem applyRecvWindowUpdate_windows {s : Http2StreamManager}
    (hstream : s.conn.getStream streamId = some stream)
    (hstrat : s.conn.runtimeConfig.flowControlStrategy = none) (size : Nat) :
    let s' := s.applyRecvWindowUpdate streamId size
    s'.conn.runtimeConfig = s.conn.runtimeConfig ∧ s'.conn.localSettings = s.conn.localSettings ∧
      s'.conn.connRecvWindow = replenished s.conn.connRecvTarget s.conn.connRecvWindow ∧
      ∃ stream', s'.conn.getStream streamId = some stream' ∧
        stream'.recvWindow = replenished s.conn.streamRecvTarget stream.recvWindow ∧
        stream'.canReceiveData = stream.canReceiveData := by
  have hkeepsId (increment : Int32) :
      KeepsId fun stream io => (Http2Stream.adjustRecvWindow increment stream, io) :=
    fun _ _ => rfl
  unfold applyRecvWindowUpdate
  rw [hstream]
  dsimp only
  rw [Http2Conn.evaluateRecvWindowUpdate_default hstrat]
  dsimp only
  generalize hconn : (if s.conn.connRecvWindow < lowWatermark s.conn.connRecvTarget then
    s.conn.connRecvTarget - s.conn.connRecvWindow.toUInt32 else 0) = connIncrement
  generalize hinc : (if stream.recvWindow < lowWatermark s.conn.streamRecvTarget then
    s.conn.streamRecvTarget - stream.recvWindow.toUInt32 else 0) = streamIncrement
  have hafter : (if connIncrement > 0 then
      (s.enqueueWindowUpdateAction 0 connIncrement).adjustConnRecvWindow connIncrement.toInt32
      else s).conn = { s.conn with connRecvWindow := s.conn.connRecvWindow + connIncrement.toInt32 } := by
    split
    · rfl
    next hzero =>
    have hnone : connIncrement = 0 := UInt32.toNat_inj.1
      (Nat.le_zero.1 (UInt32.le_iff_toNat_le.1 (UInt32.not_lt.1 hzero)))
    have hsame : s.conn.connRecvWindow + connIncrement.toInt32 = s.conn.connRecvWindow := by
      rw [hnone]
      exact Int32.add_zero _
    rw [hsame]
  have hrecv : replenished s.conn.streamRecvTarget stream.recvWindow =
      stream.recvWindow + streamIncrement.toInt32 := by rw [replenished, hinc]
  rw [replenished, hconn, hrecv]
  generalize (if connIncrement > 0 then
    (s.enqueueWindowUpdateAction 0 connIncrement).adjustConnRecvWindow connIncrement.toInt32
    else s) = t at *
  have ht : t.conn.getStream streamId = some stream := by
    rw [hafter]
    exact hstream
  split
  · have hmodify := SameRecv.modifyStream (t.enqueueWindowUpdateAction streamId streamIncrement) streamId
      (·.adjustRecvWindow streamIncrement.toInt32)
    have ht' : (t.enqueueWindowUpdateAction streamId streamIncrement).conn.getStream streamId =
      some stream := ht
    refine ⟨?_, ?_, ?_, ?_⟩
    · rw [hmodify.runtimeConfig]
      exact hafter ▸ rfl
    · rw [hmodify.localSettings]
      exact hafter ▸ rfl
    · rw [hmodify.connRecvWindow]
      exact hafter ▸ rfl
    exact ⟨_, getStream_onStream (hkeepsId streamIncrement.toInt32) ht', rfl, rfl⟩
  next hzero =>
  have hnone : streamIncrement = 0 := UInt32.toNat_inj.1
    (Nat.le_zero.1 (UInt32.le_iff_toNat_le.1 (UInt32.not_lt.1 hzero)))
  refine ⟨?_, ?_, ?_, stream, ht, ?_, rfl⟩
  · rw [hafter]
  · rw [hafter]
  · rw [hafter]
  rw [hnone]
  exact (Int32.add_zero _).symm

/-- DATA is taken from both windows, and both are replenished. -/
theorem receiveData_windows (hstream : s.conn.getStream streamId = some stream)
    (hstrat : s.conn.runtimeConfig.flowControlStrategy = none) (data : Bytes) (endStream : Bool) :
    DataWindows streamId stream data.length endStream s (s.receiveData streamId data endStream) := by
  have hsends (stream : Http2Stream) (io : Http2StreamIo) :
      SendsData [] (stream, io) (stream.onDataReceived endStream io) :=
    stream.onDataReceived_sends endStream io
  have hkeeps : KeepsId fun stream io => Http2Stream.onDataReceived endStream stream io :=
    fun stream io => (hsends stream io).streamId
  have hreceived : SameRecv s (s.onStream streamId (·.onDataReceived endStream)) :=
    SameRecv.closed.onStream s streamId fun stream io => ⟨[], (hsends stream io).toSends⟩
  have hreceive (h : endStream = false) :
      (stream.onDataReceived endStream s.io).1.canReceiveData = stream.canReceiveData := by
    subst h
    unfold Http2Stream.onDataReceived Http2Stream.notifyRetireIfClosed
    rw [if_neg Bool.false_ne_true]
    dsimp only
    split <;> rfl
  unfold receiveData
  dsimp only
  -- the debits
  generalize hopened : s.onStream streamId (·.onDataReceived endStream) = opened at *
  have hget : opened.conn.getStream streamId = some (stream.onDataReceived endStream s.io).1 := by
    rw [← hopened]
    exact getStream_onStream hkeeps hstream
  have hwin := (hsends stream s.io).recvWindow
  generalize (stream.onDataReceived endStream s.io).1 = stream₁ at *
  have hget₁ : (opened.adjustConnRecvWindow (-Int32.ofNat data.length)).conn.getStream streamId =
    some stream₁ := hget
  have hdebit := SameRecv.modifyStream (opened.adjustConnRecvWindow (-Int32.ofNat data.length))
    streamId (·.adjustRecvWindow (-Int32.ofNat data.length))
  have hget₂ : ((opened.adjustConnRecvWindow (-Int32.ofNat data.length)).modifyStream streamId
      (·.adjustRecvWindow (-Int32.ofNat data.length))).conn.getStream streamId =
      some (stream₁.adjustRecvWindow (-Int32.ofNat data.length)) :=
    getStream_onStream (fun _ _ => rfl) hget₁
  generalize (opened.adjustConnRecvWindow (-Int32.ofNat data.length)).modifyStream streamId
    (·.adjustRecvWindow (-Int32.ofNat data.length)) = debited at *
  have hconfig : debited.conn.runtimeConfig = s.conn.runtimeConfig :=
    hdebit.runtimeConfig.trans hreceived.runtimeConfig
  have hsettings : debited.conn.localSettings = s.conn.localSettings :=
    hdebit.localSettings.trans hreceived.localSettings
  have hconn : debited.conn.connRecvWindow =
      s.conn.connRecvWindow - Int32.ofNat data.length := by
    rw [hdebit.connRecvWindow, Int32.sub_eq_add_neg, ← hreceived.connRecvWindow]
    rfl
  have hrecv : (stream₁.adjustRecvWindow (-Int32.ofNat data.length)).recvWindow =
      stream.recvWindow - Int32.ofNat data.length := by
    rw [Int32.sub_eq_add_neg, ← hwin]
    rfl
  -- the increments, and what is done with the data
  obtain ⟨hconfig', hsettings', hconn', stream', hget', hrecv', hreceive'⟩ :=
    applyRecvWindowUpdate_windows hget₂ (hconfig ▸ hstrat) data.length
  have happend := KeepsWindows.appendStreamDataAndMarkEvents
    (debited.applyRecvWindowUpdate streamId data.length) streamId data endStream
  obtain ⟨stream'', hget'', hrecv'', hreceive''⟩ := happend.stream stream' hget'
  have htargets := Http2Conn.recvTargets_congr hconfig hsettings
  refine ⟨?_, ?_, ?_, stream'', hget'', ?_, fun h => ?_⟩
  · exact happend.same.runtimeConfig.trans (hconfig'.trans hconfig)
  · exact happend.same.localSettings.trans (hsettings'.trans hsettings)
  · rw [happend.same.connRecvWindow, hconn', htargets.1, hconn]
  · rw [hrecv'', hrecv', htargets.2, hrecv]
  rw [hreceive'', hreceive', ← hreceive h]
  rfl

/-! ## Runs of DATA -/

/-- DATA of a frame that is accepted. -/
structure ReceivedData where
  streamId : UInt32
  data : Bytes
  endStream : Bool

variable (s : Http2StreamManager)

def receiveFrame (frame : ReceivedData) : Http2StreamManager :=
  s.receiveData frame.streamId frame.data frame.endStream

/-- A stream takes the frame, and it fits both windows. -/
def InWindow (frame : ReceivedData) : Prop :=
  (frame.data.length : Int) ≤ s.conn.connRecvWindow.toInt ∧
    ∃ stream, s.conn.getStream frame.streamId = some stream ∧ stream.canReceiveData = true ∧
      (frame.data.length : Int) ≤ stream.recvWindow.toInt

def InWindowRun : Http2StreamManager → List ReceivedData → Prop
  | _, [] => True
  | s, frame :: frames => s.InWindow frame ∧ InWindowRun (s.receiveFrame frame) frames

/-- The windows of the connection and of the stream are replenished after the frame. -/
def ReplenishesFrame (frame : ReceivedData) : Prop :=
  Replenished s.conn.connRecvTarget s.conn.connRecvWindow frame.data.length
    (s.receiveFrame frame).conn.connRecvWindow ∧
  ∀ stream, s.conn.getStream frame.streamId = some stream →
    ∃ stream', (s.receiveFrame frame).conn.getStream frame.streamId = some stream' ∧
      Replenished s.conn.streamRecvTarget stream.recvWindow frame.data.length stream'.recvWindow

variable {s}

def ReplenishesRun : Http2StreamManager → List ReceivedData → Prop
  | _, [] => True
  | s, frame :: frames => s.ReplenishesFrame frame ∧ ReplenishesRun (s.receiveFrame frame) frames

/-- The manager has the configuration of a connection. -/
def Configured (conn : Http2Conn) (s : Http2StreamManager) : Prop :=
  s.conn.runtimeConfig = conn.runtimeConfig ∧ s.conn.localSettings = conn.localSettings

section

variable {conn : Http2Conn} {s : Http2StreamManager} {frame : ReceivedData}
  {frames : List ReceivedData}

theorem receiveFrame_windows {stream : Http2Stream}
    (hstrat : conn.runtimeConfig.flowControlStrategy = none) (hconf : s.Configured conn)
    (hstream : s.conn.getStream frame.streamId = some stream) :
    DataWindows frame.streamId stream frame.data.length frame.endStream s (s.receiveFrame frame) :=
  receiveData_windows hstream (hconf.1 ▸ hstrat) frame.data frame.endStream

theorem Configured.receiveFrame (hstrat : conn.runtimeConfig.flowControlStrategy = none)
    (hconf : s.Configured conn) (hin : s.InWindow frame) :
    (s.receiveFrame frame).Configured conn := by
  obtain ⟨-, stream, hstream, -, -⟩ := hin
  have hwindows := receiveFrame_windows hstrat hconf hstream
  exact ⟨hwindows.runtimeConfig.trans hconf.1, hwindows.localSettings.trans hconf.2⟩

theorem replenishesFrame (hstrat : conn.runtimeConfig.flowControlStrategy = none)
    (hconn : TargetFits conn.connRecvTarget) (hstream : TargetFits conn.streamRecvTarget)
    (hconf : s.Configured conn) (hin : s.InWindow frame) : s.ReplenishesFrame frame := by
  have htargets := Http2Conn.recvTargets_congr hconf.1 hconf.2
  obtain ⟨hsize, stream, hget, -, hsize'⟩ := hin
  have hwindows := receiveFrame_windows hstrat hconf hget
  refine ⟨?_, fun stream' hget' => ?_⟩
  · rw [hwindows.conn, htargets.1]
    exact replenished_spec hconn hsize
  obtain rfl : stream = stream' := Option.some.inj (hget.symm.trans hget')
  obtain ⟨after, hafter, hwin, -⟩ := hwindows.stream
  refine ⟨after, hafter, ?_⟩
  rw [hwin, htargets.2]
  exact replenished_spec hstream hsize'

theorem replenishesRun (hstrat : conn.runtimeConfig.flowControlStrategy = none)
    (hconn : TargetFits conn.connRecvTarget) (hstream : TargetFits conn.streamRecvTarget)
    (hconf : s.Configured conn) (hin : s.InWindowRun frames) : s.ReplenishesRun frames := by
  induction frames generalizing s with
  | nil => trivial
  | cons frame frames ih =>
  obtain ⟨hframe, hrest⟩ := hin
  exact ⟨replenishesFrame hstrat hconn hstream hconf hframe,
    ih (hconf.receiveFrame hstrat hframe) hrest⟩

end

/-- A server with one stream that waits for DATA. -/
def waiting (conn : Http2Conn) (connWindow streamWindow : Int32) : Http2StreamManager where
  conn := { conn with
    connRecvWindow := connWindow
    streams := [{ streamId := 1, state := .Open, recvWindow := streamWindow }] }

theorem waiting_replenishes {conn : Http2Conn}
    (hstrat : conn.runtimeConfig.flowControlStrategy = none)
    (hall : ∀ s frames, Configured conn s → s.InWindowRun frames → s.ReplenishesRun frames)
    (hconn : 0 ≤ connWindow.toInt) (hstream : 0 ≤ streamWindow.toInt) :
    Replenished conn.connRecvTarget connWindow 0 (replenished conn.connRecvTarget connWindow) ∧
      Replenished conn.streamRecvTarget streamWindow 0
        (replenished conn.streamRecvTarget streamWindow) := by
  let s := waiting conn connWindow streamWindow
  let stream : Http2Stream := { streamId := 1, state := .Open, recvWindow := streamWindow }
  let frame : ReceivedData := ⟨1, [], false⟩
  have hconf : s.Configured conn := ⟨rfl, rfl⟩
  have hget : s.conn.getStream frame.streamId = some stream := rfl
  have hin : s.InWindow frame := ⟨hconn, stream, hget, rfl, hstream⟩
  obtain ⟨⟨hconn', hstream'⟩, -⟩ := hall s [frame] hconf ⟨hin, trivial⟩
  have hwindows := receiveFrame_windows hstrat hconf hget
  obtain ⟨after, hafter, hwin, -⟩ := hwindows.stream
  obtain ⟨after', hafter', hreplenished⟩ := hstream' stream hget
  obtain rfl : after = after' := Option.some.inj (hafter.symm.trans hafter')
  have hsub (window : Int32) : window - Int32.ofNat frame.data.length = window :=
    Int32.sub_zero window
  constructor
  · rw [hwindows.conn, hsub] at hconn'
    exact hconn'
  rw [hwin, hsub] at hreplenished
  exact hreplenished

/-- Both windows are replenished along every run of DATA exactly if both targets fit. -/
theorem replenishes_iff {conn : Http2Conn} (hstrat : conn.runtimeConfig.flowControlStrategy = none)
    (htarget : conn.runtimeConfig.flowControlTargetWindow.toNat < 2 ^ 31)
    (hinit : conn.localSettings.initialWindowSize.toNat < 2 ^ 31) :
    (∀ s frames, Configured conn s → s.InWindowRun frames → s.ReplenishesRun frames) ↔
      TargetFits conn.connRecvTarget ∧ TargetFits conn.streamRecvTarget := by
  have hconn := Http2Conn.connRecvTarget_lt htarget hinit
  have hstream := Http2Conn.streamRecvTarget_lt hinit
  constructor
  · intro hall
    constructor
    · refine Classical.byContradiction fun hfits => ?_
      obtain ⟨window, hwin, hnot⟩ :=
        exists_not_replenished conn.connRecvTarget_ne hconn hfits
      exact hnot (waiting_replenishes hstrat hall hwin hwin).1
    refine Classical.byContradiction fun hfits => ?_
    obtain ⟨window, hwin, hnot⟩ :=
      exists_not_replenished conn.streamRecvTarget_ne hstream hfits
    exact hnot (waiting_replenishes hstrat hall hwin hwin).2
  rintro ⟨hconn, hstream⟩ s frames hconf hin
  exact replenishesRun hstrat hconn hstream hconf hin

/-- The defaults fit. -/
theorem replenishes_default :
    (waiting {} 49152 49152).ReplenishesRun [⟨1, [7, 8, 9], false⟩] := by
  have hfits : TargetFits 65535 := ⟨by decide, by decide⟩
  exact (@replenishes_iff {} rfl (by decide) (by decide)).2 ⟨hfits, hfits⟩ _ _ ⟨rfl, rfl⟩
    ⟨⟨by decide, _, rfl, rfl, by decide⟩, trivial⟩

/-! ## A target that is too large -/

/-- Stream 1 takes frames of this size, and the connection has this much left. -/
structure Draining (conn : Http2Conn) (size left : Nat) (s : Http2StreamManager) : Prop where
  configured : s.Configured conn
  stream : ∃ stream, s.conn.getStream 1 = some stream ∧ stream.canReceiveData = true ∧
    (size : Int) ≤ stream.recvWindow.toInt
  conn : s.conn.connRecvWindow.toInt = left

section

variable {conn : Http2Conn} {size left : Nat} {s : Http2StreamManager}

theorem Draining.receiveFrame (hstrat : conn.runtimeConfig.flowControlStrategy = none)
    (hmark : (lowWatermark conn.connRecvTarget).toInt = 0) (hfits : TargetFits conn.streamRecvTarget)
    (hsize : size ≤ conn.streamRecvTarget.toNat * 3 / 4) (hdata : data.length ≤ size)
    (h : Draining conn size (left + data.length) s) :
    s.InWindow ⟨1, data, false⟩ ∧ Draining conn size left (s.receiveFrame ⟨1, data, false⟩) := by
  obtain ⟨hconf, ⟨stream, hget, hreceives, hwin⟩, hconn⟩ := h
  have hfit : (data.length : Int) ≤ s.conn.connRecvWindow.toInt := by omega
  have hfit' : (data.length : Int) ≤ stream.recvWindow.toInt := by omega
  have hin : s.InWindow ⟨1, data, false⟩ := ⟨hfit, stream, hget, hreceives, hfit'⟩
  have htargets := Http2Conn.recvTargets_congr hconf.1 hconf.2
  have hwindows := @receiveFrame_windows conn s ⟨1, data, false⟩ stream hstrat hconf hget
  obtain ⟨stream', hget', hwin', hreceives'⟩ := hwindows.stream
  have hlow := (replenished_spec hfits hfit').low
  refine ⟨hin, hconf.receiveFrame hstrat hin, ⟨stream', hget', ?_, ?_⟩, ?_⟩
  · exact (hreceives' rfl).trans hreceives
  · have hlow' : (size : Int) ≤ (replenished conn.streamRecvTarget
        (stream.recvWindow - Int32.ofNat data.length)).toInt := by omega
    rw [hwin', htargets.2]
    exact hlow'
  have hdebit := debit_toInt hfit
  have hhigh : ¬ s.conn.connRecvWindow - Int32.ofNat data.length <
      lowWatermark conn.connRecvTarget := by
    intro hlt
    have := Int32.lt_iff_toInt_lt.1 hlt
    omega
  rw [hwindows.conn, htargets.1, replenished_of_high hhigh]
  omega

theorem Draining.receiveFrames (hstrat : conn.runtimeConfig.flowControlStrategy = none)
    (hmark : (lowWatermark conn.connRecvTarget).toInt = 0) (hfits : TargetFits conn.streamRecvTarget)
    (hsize : size ≤ conn.streamRecvTarget.toNat * 3 / 4) (hdata : data.length = size)
    (h : Draining conn size (count * size) s) : let frames := List.replicate count ⟨1, data, false⟩
    s.InWindowRun frames ∧ Draining conn size 0 (frames.foldl Http2StreamManager.receiveFrame s) := by
  induction count generalizing s with
  | zero => exact ⟨trivial, by simpa using h⟩
  | succ count ih =>
  have hleft : Draining conn size (count * size + data.length) s := by
    rw [hdata, ← Nat.succ_mul]
    exact h
  obtain ⟨hin, hnext⟩ :=
    Draining.receiveFrame hstrat hmark hfits hsize (Nat.le_of_eq hdata) hleft
  obtain ⟨hrun, hend⟩ := ih hnext
  exact ⟨⟨hin, hrun⟩, hend⟩

end

theorem ReplenishesRun.positive {s : Http2StreamManager}
    (h : s.ReplenishesRun frames) (hpos : 0 < s.conn.connRecvWindow.toInt) :
    0 < (frames.foldl receiveFrame s).conn.connRecvWindow.toInt := by
  induction frames generalizing s with
  | nil => exact hpos
  | cons frame frames ih =>
  obtain ⟨⟨hconn, -⟩, hrest⟩ := h
  exact ih hrest hconn.positive

/-- A target whose mark comes out as zero. -/
def zeroMark : Http2Conn := { runtimeConfig := { flowControlTargetWindow := 1431655766 } }

/-- DATA of one stream, in full frames after the first. -/
def drainingFrames : List ReceivedData :=
  ⟨1, List.replicate 5462 0, false⟩ :: List.replicate 87381 ⟨1, List.replicate 16384 0, false⟩

/-- After them the peer may not send any more, and nothing was announced to it. -/
theorem drainingFrames_starve :
    let s := waiting zeroMark 1431655766 65535
    s.InWindowRun drainingFrames ∧
      (drainingFrames.foldl receiveFrame s).conn.connRecvWindow.toInt = 0 ∧
      ¬ s.ReplenishesRun drainingFrames := by
  intro s
  have hfits : TargetFits zeroMark.streamRecvTarget := ⟨by decide, by decide⟩
  have hlen (count : Nat) : (List.replicate count (0 : UInt8)).length = count :=
    List.length_replicate
  have hstart : Draining zeroMark 16384 (87381 * 16384 + (List.replicate 5462 (0 : UInt8)).length)
      s := by
    rw [hlen]
    exact ⟨⟨rfl, rfl⟩, ⟨_, rfl, rfl, by decide⟩, by decide +kernel⟩
  obtain ⟨hin, hnext⟩ :=
    Draining.receiveFrame rfl rfl hfits (by decide) (by rw [hlen]; decide) hstart
  obtain ⟨hrun, hend⟩ := Draining.receiveFrames rfl rfl hfits (by decide) (hlen 16384) hnext
  have hzero : (drainingFrames.foldl receiveFrame s).conn.connRecvWindow.toInt = 0 := by
    rw [drainingFrames, List.foldl_cons]
    exact hend.conn
  refine ⟨⟨hin, hrun⟩, hzero, fun h => ?_⟩
  have hpositive := h.positive (by decide)
  omega

end Http2StreamManager

end Galay.Http2
