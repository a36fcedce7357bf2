import Galay.Http2.Hpack.Decoder
import Galay.Http2.Stream

/-!
# Connections (`kernel/http2_conn.h`)

The encoder and the send window of a connection are in `Http2StreamIo`, since the streams point to
them; everything else is here. The table of streams is a list; its order is the order in which
`forEachStream` goes through it, which the source leaves to the hash table.
-/

namespace Galay.Http2

/-! ## Settings -/

structure Http2Settings where
  headerTableSize : UInt32 := 4096
  enablePush : UInt32 := kDefaultEnablePush
  maxConcurrentStreams : UInt32 := kDefaultMaxConcurrentStreams
  initialWindowSize : UInt32 := kDefaultInitialWindowSize
  maxFrameSize : UInt32 := kDefaultMaxFrameSize
  maxHeaderListSize : UInt32 := kDefaultMaxHeaderListSize
  deriving DecidableEq, Repr

namespace Http2Settings

def applySetting (settings : Http2Settings) (setting : Http2Setting) :
    Except Http2ErrorCode Http2Settings :=
  if setting.id = Http2SettingsId.HeaderTableSize then
    .ok { settings with headerTableSize := setting.value }
  else if setting.id = Http2SettingsId.EnablePush then
    if setting.value > 1 then .error .ProtocolError
    else .ok { settings with enablePush := setting.value }
  else if setting.id = Http2SettingsId.MaxConcurrentStreams then
    .ok { settings with maxConcurrentStreams := setting.value }
  else if setting.id = Http2SettingsId.InitialWindowSize then
    if setting.value > 2147483647 then .error .FlowControlError
    else .ok { settings with initialWindowSize := setting.value }
  else if setting.id = Http2SettingsId.MaxFrameSize then
    if setting.value < 16384 ∨ setting.value > 16777215 then .error .ProtocolError
    else .ok { settings with maxFrameSize := setting.value }
  else if setting.id = Http2SettingsId.MaxHeaderListSize then
    .ok { settings with maxHeaderListSize := setting.value }
  else .ok settings

/-- The settings of a frame in order, until one is wrong. The source changes the object it is
called on, also when it fails; the callers in this model use it on a copy or give up the
connection. -/
def applySettings (settings : Http2Settings) (frame : Http2SettingsFrame) :
    Except Http2ErrorCode Http2Settings :=
  frame.settings.foldlM applySetting settings

end Http2Settings

structure Http2FlowControlUpdate where
  connIncrement : UInt32 := 0
  streamIncrement : UInt32 := 0
  deriving DecidableEq, Repr

structure Http2RuntimeConfig where
  flowControlTargetWindow : UInt32 := kDefaultInitialWindowSize
  flowControlStrategy : Option (Int32 → Int32 → UInt32 → Nat → Http2FlowControlUpdate) := none
  staticRoutes : List H2StaticRoute := []
  staticFileMounts : List H2StaticFileMount := []

/-! ## The connection -/

structure Http2Conn where
  localSettings : Http2Settings := {}
  peerSettings : Http2Settings := {}
  runtimeConfig : Http2RuntimeConfig := {}
  streams : List Http2Stream := []
  lastPeerStreamId : UInt32 := 0
  decoder : HpackDecoder := {}
  connRecvWindow : Int32 := 65535
  goawaySent : Bool := false
  goawayReceived : Bool := false
  draining : Bool := false
  goawayLastStreamId : UInt32 := 0
  goawayErrorCode : UInt32 := 0
  goawayDebugData : Bytes := []
  settingsAckPending : Bool := false
  isClient : Bool := false
  expectingContinuation : Bool := false
  continuationStreamId : UInt32 := 0

namespace Http2Conn

def validateSettingsFrame (frame : Http2SettingsFrame) : Http2ErrorCode :=
  if frame.header.streamId ≠ 0 then .ProtocolError
  else if frame.header.isAck ∧ frame.settings ≠ [] then .FrameSizeError
  else .NoError

variable (conn : Http2Conn)

def getStream (streamId : UInt32) : Option Http2Stream :=
  conn.streams.find? (·.streamId = streamId)

/-- Put a stream in the place of the one with its identifier. -/
def setStream (stream : Http2Stream) : Http2Conn :=
  { conn with
    streams := conn.streams.map fun s => if s.streamId = stream.streamId then stream else s }

def streamCount : Nat := conn.streams.length

def setLastPeerStreamId (streamId : UInt32) : Http2Conn :=
  { conn with lastPeerStreamId := streamId }

def setExpectingContinuation (expecting : Bool) (streamId : UInt32) : Http2Conn :=
  { conn with expectingContinuation := expecting, continuationStreamId := streamId }

def adjustConnRecvWindow (delta : Int32) : Http2Conn :=
  { conn with connRecvWindow := conn.connRecvWindow + delta }

def markGoawaySent (lastStreamId : UInt32) (error : Http2ErrorCode) (debug : Bytes) : Http2Conn:=
  { conn with
    goawaySent := true
    draining := true
    goawayLastStreamId := lastStreamId
    goawayErrorCode := error.code
    goawayDebugData := debug }

def markGoawayReceived (lastStreamId : UInt32) (errorCode : UInt32) (debug : Bytes) : Http2Conn:=
  { conn with
    goawayReceived := true
    draining := true
    goawayLastStreamId := lastStreamId
    goawayErrorCode := errorCode
    goawayDebugData := debug }

/-- The increments to announce after DATA. The products and differences are those of `uint32_t`. -/
def evaluateRecvWindowUpdate (streamRecvWindow : Int32) (dataSize : Nat) :
    Http2FlowControlUpdate :=
  let connTarget :=
    if conn.runtimeConfig.flowControlTargetWindow = 0 then conn.localSettings.initialWindowSize
    else conn.runtimeConfig.flowControlTargetWindow
  let connTarget := if connTarget = 0 then kDefaultInitialWindowSize else connTarget
  let streamTarget :=
    if conn.localSettings.initialWindowSize = 0 then kDefaultInitialWindowSize
    else conn.localSettings.initialWindowSize
  match conn.runtimeConfig.flowControlStrategy with
  | some strategy => strategy conn.connRecvWindow streamRecvWindow connTarget dataSize
  | none =>
    let connLowWatermark := (connTarget * 3 / 4).toInt32
    let streamLowWatermark := (streamTarget * 3 / 4).toInt32
    { connIncrement :=
        if conn.connRecvWindow < connLowWatermark then connTarget - conn.connRecvWindow.toUInt32
        else 0
      streamIncrement :=
        if streamRecvWindow < streamLowWatermark then streamTarget - streamRecvWindow.toUInt32
        else 0 }

end Http2Conn

end Galay.Http2
