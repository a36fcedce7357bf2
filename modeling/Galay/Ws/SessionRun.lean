import Galay.Lib.Run
import Galay.Ws.MessageRun

/-!
# A session delivers the messages of its peer

What one turn does with the frames that remain, and from it what every run delivers, as long as the
size checks of the reader leave room and no control frame stands between fragments.
-/

namespace Galay.Ws

open List

namespace Session

open WsMessageReadState

variable {simd : Bool} {session session' : Session} {expected : List Message}

/-- The frames that remain say what is expected beyond what has been delivered. -/
def Expects (session : Session) (expected : List Message) : Prop :=
  ∃ pending frames, session.state.Reads pending frames session.unread ∧
    expected = session.delivered ++ reassemble pending frames

/-- A turn in a state with room. -/
def RoomyStep (simd : Bool) (session session' : Session) : Prop :=
  session.state.Room ∧ Step simd session session'

/-- A read moves bytes into the buffer and a delivery takes some out of it. -/
def todo (session : Session) : Nat :=
  2 * session.unread.length + session.state.ring.readable

theorem readable_receive {ring : RingBuffer} (h : bytes.length ≤ ring.writable) :
    (ring.receive bytes).readable = ring.readable + bytes.length := by
  rw [← RingBuffer.length_contents, ring.contents_receive h, length_append,
    RingBuffer.length_contents]

theorem prepareRecvWindow_of_room {state : WsMessageReadState} (h : 0 < state.ring.writable) :
    state.prepareRecvWindow = (true, state) :=
  if_neg (by omega)

/-- The bytes of a read join those that the buffer holds. -/
theorem reads_received {waiting : WsMessageReadState}
    (h : waiting.Reads pending frames (bytes ++ rest))
    (hfits : bytes.length ≤ waiting.ring.writable) :
    (waiting.onBytesReceived bytes).Reads pending frames rest := by
  refine ⟨h.error, ?_, ?_, ?_, h.uninterrupted⟩
  · cases pending with
    | none => exact h.holds
    | some message => exact h.holds
  · refine Eq.trans (congrArg (· ++ rest) (waiting.ring.contents_receive hfits)) ?_
    rw [append_assoc]
    exact h.bytes
  exact (waiting.ring.capacity_receive bytes).symm ▸ h.conforming

/-- A turn keeps what is expected and leaves less to do. -/
theorem Expects.step (h : session.Expects expected) (hstep : RoomyStep simd session session') :
    session'.Expects expected ∧ session'.todo < session.todo := by
  obtain ⟨pending, frames, hreads, hexp⟩ := h
  obtain ⟨hroom, hstep⟩ := hstep
  have hparsed := @parsed simd session.state pending frames session.unread hreads
  cases hstep with
  | deliver _ hparse herr hnext =>
    rw [hparse] at hparsed
    cases hparsed with
    | message _ hlater hmsg hless =>
      refine ⟨⟨none, _, hlater hnext, ?_⟩, ?_⟩
      · rw [hexp, hmsg, append_assoc, singleton_append]
      have hring := hnext.ring
      unfold todo
      simp only [hring]
      omega
    | tooLarge hbad => exact absurd herr hbad
  | fail _ hparse herr =>
    rw [hparse] at hparsed
    cases hparsed with
    | message hgood => exact absurd hgood herr
    | tooLarge _ hnone => exact absurd hroom hnone
  | full _ hparse hfull =>
    rw [hparse] at hparsed
    cases hparsed with
    | wait _ _ _ hwritable =>
    rw [prepareRecvWindow_of_room hwritable] at hfull
    cases hfull
  | read _ hparse _ hne hfits hunread =>
  rw [hparse] at hparsed
  cases hparsed with
  | wait hwaiting hmsg _ _ hle =>
  rw [hunread] at hwaiting
  refine ⟨⟨_, _, reads_received hwaiting hfits, hexp.trans (by rw [hmsg])⟩, ?_⟩
  have hpos := List.length_pos_iff.2 hne
  have hreadable := readable_receive hfits
  unfold todo
  simp only [hunread, length_append, onBytesReceived, hreadable]
  omega

/-- Where no turn is possible there is nothing left. -/
theorem Expects.delivered_eq (h : session.Expects expected)
    (hstuck : ∀ session', ¬ Step simd session session') : session.delivered = expected := by
  obtain ⟨pending, frames, hreads, hexp⟩ := h
  have hparsed := @parsed simd session.state pending frames session.unread hreads
  revert hparsed
  generalize hres : parseFromBuffer simd session.state = result
  intro hparsed
  cases hparsed with
  | message herr => exact absurd (.deliver hreads.error hres herr .reset) (hstuck _)
  | tooLarge herr => exact absurd (.fail hreads.error hres herr) (hstuck _)
  | @wait waiting pending' frames' hwaiting hmsg hdone hwritable =>
  cases hunread : session.unread with
  | nil =>
    rw [hexp, hmsg, hdone hunread, reassemble, append_nil]
  | cons byte rest =>
  refine absurd (.read hreads.error hres (prepareRecvWindow_of_room hwritable)
    (cons_ne_nil byte []) ?_ hunread) (hstuck _)
  exact hwritable

/-- A session before its first turn. -/
def start (ring : RingBuffer) (setting : WsReaderSetting) (message : Bytes) (opcode : WsOpcode)
    (isServer enableFastPath hasControlCallback : Bool) (unread : Bytes) : Session where
  state := { ring, setting, message, opcode, isServer, enableFastPath, hasControlCallback }
  unread

/-- In every run in which each turn begins with room, the frames of a conforming peer that sends no
control frame within a message are delivered without an error, and no such run is infinite. -/
theorem delivers_reassemble (simd : Bool) {ring : RingBuffer} {setting : WsReaderSetting}
    {message : Bytes} {opcode : WsOpcode} {isServer enableFastPath hasControlCallback : Bool}
    {unread : Bytes} {frames : List WsFrame}
    (hconf : Conforming setting ring.capacity isServer none frames)
    (hbytes : ring.contents ++ unread = wireOf isServer frames)
    (hunint : Uninterrupted none frames) :
    let session := start ring setting message opcode isServer enableFastPath hasControlCallback
      unread
    Delivers simd (RoomyStep simd) session (reassemble none frames) ∧
      Acc (fun session' session => RoomyStep simd session session') session := by
  intro session
  have hstart : session.Expects (reassemble none frames) :=
    ⟨none, frames, ⟨rfl, rfl, hbytes, hconf, hunint⟩, rfl⟩
  have hkeep : ∀ session session' : Session, session.Expects (reassemble none frames) →
      RoomyStep simd session session' → session'.Expects (reassemble none frames) :=
    fun _ _ h hstep => (h.step hstep).1
  constructor
  · intro session' hrun
    have h := Lib.invariant_of_reaches hkeep hstart hrun
    refine ⟨?_, ?_, h.delivered_eq⟩
    · obtain ⟨_, _, hreads, _⟩ := h
      exact hreads.error
    obtain ⟨_, _, _, hexp⟩ := h
    exact ⟨_, hexp.symm⟩
  · exact Lib.acc_of_measure todo hkeep (fun _ _ h hstep => (h.step hstep).2) hstart

/-! ### A message of two fragments -/

def hello : RingBuffer where
  backend := .Vector
  buffer := List.replicate 16 0
  readIndex := 0
  writeIndex := 0
  size := 0
  size_le := by decide
  readIndex_lt := by decide
  writeIndex_eq := by decide

def fragment (opcode : WsOpcode) (fin : Bool) (payload : Bytes) : WsFrame :=
  ⟨{ opcode, fin }, payload⟩

theorem conforming_fragments :
    Conforming {} hello.capacity false none
      [fragment .Text false [0x61], fragment .Continuation true [0x62]] := by
  refine ⟨⟨⟨rfl, rfl, rfl, nofun, by decide, nofun, nofun⟩, by decide, by decide,
      fun _ => ⟨fun _ => nofun, fun _ => rfl⟩, fun _ => by decide, fun _ => nofun⟩,
    ⟨⟨rfl, rfl, rfl, nofun, by decide, nofun, nofun⟩, by decide, by decide,
      fun _ => ⟨nofun, fun h => absurd rfl h⟩, fun _ => by decide, fun _ _ _ => by decide⟩, trivial⟩

theorem delivers_reassemble_fragments :
    let session := start hello {} [] .Close false true false [0x01, 0x01, 0x61, 0x80, 0x01, 0x62]
    Delivers false (RoomyStep false) session [(.Text, [0x61, 0x62])] ∧
      Acc (fun session' session => RoomyStep false session session') session :=
  delivers_reassemble false conforming_fragments (by decide)
    ⟨nofun, nofun, trivial⟩

/-! ### A control frame between two fragments -/

theorem conforming_interrupted :
    Conforming {} hello.capacity false none
      [fragment .Text false [0x61], fragment .Ping true [], fragment .Continuation true [0x62]] := by
  refine ⟨⟨⟨rfl, rfl, rfl, nofun, by decide, nofun, nofun⟩, by decide, by decide,
      fun _ => ⟨fun _ => nofun, fun _ => rfl⟩, fun _ => by decide, fun _ => nofun⟩,
    ⟨⟨rfl, rfl, rfl, fun _ => ⟨rfl, by decide⟩, by decide, nofun, nofun⟩, by decide, by decide,
      nofun, nofun, nofun⟩, ⟨⟨rfl, rfl, rfl, nofun, by decide, nofun, nofun⟩, by decide, by decide,
      fun _ => ⟨nofun, fun h => absurd rfl h⟩, fun _ => by decide, fun _ _ _ => by decide⟩, trivial⟩

/-- The session of the interrupted message before its first turn. -/
def interrupted : Session :=
  start hello {} [] .Close false true false [0x01, 0x01, 0x61, 0x89, 0x00, 0x80, 0x01, 0x62]

/-- The ping ends the run, and the next one begins with the continuation. -/
theorem interrupted_passes : ∃ begun ping final,
    (interrupted.state.onBytesReceived interrupted.unread).parsePass false = .again begun ∧
      begun.parsePass false = .return true ping ∧ ping.error = none ∧
      ping.resetForNextMessage.parsePass false = .return true final ∧ final.error ≠ none :=
  ⟨_, _, _, rfl, rfl, rfl, rfl, by rintro ⟨⟩⟩

theorem interrupted_fails :
    Conforming {} hello.capacity false none
      [fragment .Text false [0x61], fragment .Ping true [], fragment .Continuation true [0x62]] ∧
    hello.contents ++ interrupted.unread = wireOf false
      [fragment .Text false [0x61], fragment .Ping true [], fragment .Continuation true [0x62]] ∧
    ¬ Delivers false (Step false) interrupted (reassemble none
      [fragment .Text false [0x61], fragment .Ping true [], fragment .Continuation true [0x62]]) := by
  refine ⟨conforming_interrupted, by decide, ?_⟩
  obtain ⟨begun, ping, final, hbegun, hping, hgood, hfinal, hbad⟩ := interrupted_passes
  have hempty : parseFromBuffer false interrupted.state = (false, interrupted.state) := by
    rw [parseFromBuffer_eq]
    rfl
  have hfirst : parseFromBuffer false (interrupted.state.onBytesReceived interrupted.unread) =
      (true, ping) := by
    rw [parseFromBuffer_eq, hbegun]
    simp only
    rw [parseFromBuffer_eq, hping]
  have hsecond : parseFromBuffer false ping.resetForNextMessage = (true, final) := by
    rw [parseFromBuffer_eq, hfinal]
  let received : Session :=
    ⟨interrupted.state.onBytesReceived interrupted.unread, [], []⟩
  let delivered : Session := ⟨ping.resetForNextMessage, [], [(ping.opcode, ping.message)]⟩
  have hread : Step false interrupted received := .read rfl hempty rfl (cons_ne_nil _ _)
    (by decide) (append_nil _).symm
  have hdeliver : Step false received delivered := .deliver rfl hfirst hgood .reset
  have hfail : Step false delivered ⟨final, [], delivered.delivered⟩ := .fail rfl hsecond hbad
  intro hdelivers
  exact hbad (hdelivers _ (((Relation.ReflTransGen.single hread).tail hdeliver).tail hfail)).1

end Session

end Galay.Ws
