import Galay.Lib.Bytes

/-!
# Machines that read frames

A receiver takes frames from the front of a ring buffer that is filled by reads of any size. What it
does depends on the frames alone (`Receiver.run_related`): how the bytes are cut into reads does not
show, except that a frame larger than the ring buffer is never received.
-/

namespace Galay.Lib

open List

/-- What stands at the front of a buffer. -/
inductive Front (φ : Type)
  | incomplete
  | malformed
  | frame (frame : φ) (consumed : Nat)

/-- A way to write frames, and to find them again. -/
structure Framing (φ : Type) where
  front : Bytes → Front φ
  wire : φ → Bytes
  Valid : φ → Prop
  front_nil : front [] = .incomplete
  consumed_le {data : Bytes} {frame : φ} {consumed : Nat} :
    front data = .frame frame consumed → 0 < consumed ∧ consumed ≤ data.length
  front_wire {frame : φ} (rest : Bytes) :
    Valid frame → front (wire frame ++ rest) = .frame frame (wire frame).length
  front_short {frame : φ} {data rest more : Bytes} :
    Valid frame → data ++ rest = wire frame ++ more → data.length < (wire frame).length →
      front data = .incomplete

/-- A ring buffer and the socket behind it: what the peer sends, and how many bytes each read of the
socket would like to take. -/
structure Channel where
  capacity : Nat
  buffer : Bytes
  incoming : Bytes
  reads : Nat → Nat

namespace Channel

variable (channel : Channel)

/-- What has been sent and no frame was made of. -/
def unread : Bytes := channel.buffer ++ channel.incoming

/-- How many bytes the next read brings. -/
def readSize : Nat :=
  min (max 1 (channel.reads 0))
    (min (channel.capacity - channel.buffer.length) channel.incoming.length)

/-- A read of the socket into the ring buffer. -/
def read : Channel :=
  { channel with
    buffer := channel.buffer ++ channel.incoming.take channel.readSize
    incoming := channel.incoming.drop channel.readSize
    reads := fun k => channel.reads (k + 1) }

theorem unread_read : channel.read.unread = channel.unread := by
  rw [unread, unread, read]
  simp only [append_assoc, take_append_drop]

theorem length_incoming_read {channel : Channel} (hincoming : channel.incoming ≠ [])
    (hspace : channel.buffer.length < channel.capacity) :
    channel.read.incoming.length < channel.incoming.length := by
  have hpos := length_pos_of_ne_nil hincoming
  rw [read, length_drop, readSize]
  omega

end Channel

/-- What a frame does to a machine. -/
inductive Move (σ ρ ε : Type)
  | next (state : σ)
  | done (result : ρ)
  | failed (error : ε)

/-- How a run ends, and what it leaves. A frame on which the machine fails is left. -/
inductive Ending (ρ ε τ : Type)
  | done (result : ρ) (rest : τ)
  | failed (error : ε) (rest : τ)
  | waits (rest : τ)

namespace Ending

variable {ρ ε τ τ' : Type}

/-- Two ends that differ only in what they leave, and this by `R`. -/
inductive Related (R : τ → τ' → Prop) : Ending ρ ε τ → Ending ρ ε τ' → Prop
  | done {result : ρ} {rest : τ} {rest' : τ'} (h : R rest rest') :
    Related R (.done result rest) (.done result rest')
  | failed {error : ε} {rest : τ} {rest' : τ'} (h : R rest rest') :
    Related R (.failed error rest) (.failed error rest')
  | waits {rest : τ} {rest' : τ'} (h : R rest rest') : Related R (.waits rest) (.waits rest')

end Ending

/-- A machine that is given frames. -/
structure Receiver (φ σ ρ ε : Type) where
  framing : Framing φ
  step : σ → φ → Move σ ρ ε
  malformed : ε
  overflow : ε

namespace Receiver

variable {φ σ ρ ε : Type} (receiver : Receiver φ σ ρ ε)

/-- How an attempt to parse the buffer ends, and what it leaves there. -/
inductive Parsed (σ ρ ε : Type)
  | more (state : σ) (buffer : Bytes)
  | done (result : ρ) (buffer : Bytes)
  | failed (error : ε) (buffer : Bytes)

/-- The loop over the frames in the buffer. -/
def parse (state : σ) (buffer : Bytes) : Parsed σ ρ ε :=
  match _h : receiver.framing.front buffer with
  | .incomplete => .more state buffer
  | .malformed => .failed receiver.malformed buffer
  | .frame frame consumed =>
    match receiver.step state frame with
    | .next state => parse state (buffer.drop consumed)
    | .done result => .done result (buffer.drop consumed)
    | .failed error => .failed error buffer
termination_by buffer.length
decreasing_by
  have hle := receiver.framing.consumed_le _h
  rw [List.length_drop]
  omega

/-- The machine parses and reads in turn. -/
def run (state : σ) (channel : Channel) : Ending ρ ε Channel :=
  match receiver.parse state channel.buffer with
  | .done result buffer => .done result { channel with buffer }
  | .failed error buffer => .failed error { channel with buffer }
  | .more state buffer =>
    let channel' := { channel with buffer }
    if _hspace : channel'.buffer.length ≥ channel'.capacity then
      .failed receiver.overflow channel'
    else if _hincoming : channel'.incoming = [] then
      .waits channel'
    else
      run state channel'.read
termination_by channel.incoming.length
decreasing_by
  exact Channel.length_incoming_read _hincoming (Nat.lt_of_not_le _hspace)

/-- The machine on frames in a list. -/
def feed (capacity : Nat) : σ → List φ → Ending ρ ε (List φ)
  | _, [] => .waits []
  | state, frame :: frames =>
    if (receiver.framing.wire frame).length ≤ capacity then
      match receiver.step state frame with
      | .next state => feed capacity state frames
      | .done result => .done result frames
      | .failed error => .failed error (frame :: frames)
    else
      .failed receiver.overflow (frame :: frames)

/-- The result of a machine that is done at the last of these frames. -/
def play : σ → List φ → Option ρ
  | _, [] => none
  | state, frame :: frames =>
    match receiver.step state frame with
    | .next state => play state frames
    | .done result => if frames.isEmpty then some result else none
    | .failed _ => none

end Receiver

/-- The unread bytes of a channel are these frames. -/
structure Channel.Holds {φ : Type} (framing : Framing φ) (capacity : Nat) (channel : Channel)
    (frames : List φ) : Prop where
  capacity_eq : channel.capacity = capacity
  capacity_pos : 0 < capacity
  buffer_le : channel.buffer.length ≤ capacity
  unread_eq : channel.unread = frames.flatMap framing.wire
  valid : ∀ frame ∈ frames, framing.Valid frame

namespace Channel.Holds

variable {φ : Type} {framing : Framing φ} {capacity : Nat} {channel : Channel} {frames : List φ}

theorem read (H : channel.Holds framing capacity frames) :
    channel.read.Holds framing capacity frames where
  __ := H
  buffer_le := by
    have hle := H.buffer_le
    have hcap := H.capacity_eq
    rw [Channel.read]
    simp only [length_append, length_take, readSize]
    omega
  unread_eq := (unread_read channel).trans H.unread_eq

section InBuffer

variable {frame : φ} (H : channel.Holds framing capacity (frame :: frames))
  (hlong : (framing.wire frame).length ≤ channel.buffer.length)

include H hlong

theorem buffer_eq :
    channel.buffer = framing.wire frame ++ channel.buffer.drop (framing.wire frame).length := by
  have hunread := H.unread_eq
  rw [unread, flatMap_cons] at hunread
  have htake := congrArg (List.take (framing.wire frame).length) hunread
  rw [take_append_of_le_length hlong, take_left' rfl] at htake
  rw [← htake, length_take, Nat.min_eq_left hlong, take_append_drop]

theorem front_eq : framing.front channel.buffer = .frame frame (framing.wire frame).length := by
  rw [H.buffer_eq hlong]
  exact framing.front_wire _ (H.valid frame (mem_cons_self ..))

theorem drop :
    Holds framing capacity { channel with
      buffer := channel.buffer.drop (framing.wire frame).length } frames where
  __ := H
  buffer_le := by
    have hle := H.buffer_le
    rw [length_drop]
    omega
  unread_eq := by
    have hunread := H.unread_eq
    rw [unread, flatMap_cons, H.buffer_eq hlong, append_assoc] at hunread
    rw [unread]
    exact append_cancel_left hunread
  valid := fun other hother => H.valid other (mem_cons_of_mem _ hother)

end InBuffer

/-- A frame of which something is missing in the buffer, and it is still to come. -/
theorem front_short (H : channel.Holds framing capacity (frame :: frames))
    (hshort : channel.buffer.length < (framing.wire frame).length) :
    framing.front channel.buffer = .incomplete ∧ channel.incoming ≠ [] := by
  have hunread := H.unread_eq
  rw [unread, flatMap_cons] at hunread
  refine ⟨framing.front_short (H.valid frame (mem_cons_self ..)) hunread hshort, ?_⟩
  intro hnone
  have hlen := congrArg List.length hunread
  rw [hnone, append_nil, length_append] at hlen
  omega

end Channel.Holds

namespace Receiver

variable {φ σ ρ ε : Type} {receiver : Receiver φ σ ρ ε} {capacity : Nat} {state : σ}
  {channel : Channel} {frames : List φ}

theorem run_of_incomplete (h : receiver.framing.front channel.buffer = .incomplete) :
    receiver.run state channel =
      if channel.buffer.length ≥ channel.capacity then .failed receiver.overflow channel
      else if channel.incoming = [] then .waits channel
      else receiver.run state channel.read := by
  have hparse : receiver.parse state channel.buffer = .more state channel.buffer := by
    rw [parse]
    split
    · rfl
    · rename_i hother
      rw [h] at hother
      cases hother
    rename_i hother
    rw [h] at hother
    cases hother
  rw [run, hparse]
  simp only [dite_eq_ite]

theorem run_of_frame (h : receiver.framing.front channel.buffer = .frame frame consumed) :
    receiver.run state channel = match receiver.step state frame with
      | .next state => receiver.run state { channel with buffer := channel.buffer.drop consumed }
      | .done result => .done result { channel with buffer := channel.buffer.drop consumed }
      | .failed error => .failed error channel := by
  have hparse : receiver.parse state channel.buffer =
      match receiver.step state frame with
      | .next state => receiver.parse state (channel.buffer.drop consumed)
      | .done result => .done result (channel.buffer.drop consumed)
      | .failed error => .failed error channel.buffer := by
    rw [parse]
    split
    · rename_i hother
      rw [h] at hother
      cases hother
    · rename_i hother
      rw [h] at hother
      cases hother
    rename_i hother
    rw [h] at hother
    cases hother
    rfl
  rw [run, hparse]
  cases receiver.step state frame with
  | next state =>
    simp only
    rw [run]
  | done result => rfl
  | failed error => rfl

theorem run_related (H : channel.Holds receiver.framing capacity frames) :
    Ending.Related (fun channel frames => channel.Holds receiver.framing capacity frames)
      (receiver.run state channel) (receiver.feed capacity state frames) := by
  -- the frames that are left, and while one is being read the bytes that are to come
  induction frames generalizing state channel with
  | nil =>
    obtain ⟨hbuffer, hincoming⟩ := List.append_eq_nil_iff.1 H.unread_eq
    have hinc : receiver.framing.front channel.buffer = .incomplete := by
      rw [hbuffer, receiver.framing.front_nil]
    have hspace : ¬ channel.buffer.length ≥ channel.capacity := by
      rw [hbuffer, H.capacity_eq]
      exact Nat.not_le_of_lt H.capacity_pos
    rw [run_of_incomplete hinc, if_neg hspace, if_pos hincoming]
    exact .waits H
  | cons frame frames ih =>
  rw [feed]
  induction hlen : channel.incoming.length using Nat.strong_induction_on
    generalizing channel with
  | _ length ihRead =>
  subst hlen
  have hcap := H.capacity_eq
  have hbuffer := H.buffer_le
  by_cases hlong : (receiver.framing.wire frame).length ≤ channel.buffer.length
  · rw [if_pos (Nat.le_trans hlong hbuffer), run_of_frame (H.front_eq hlong)]
    cases receiver.step state frame with
    | next state => exact ih (H.drop hlong)
    | done result => exact .done (H.drop hlong)
    | failed error => exact .failed H
  obtain ⟨hinc, hincoming⟩ := H.front_short (Nat.lt_of_not_le hlong)
  rw [run_of_incomplete hinc]
  by_cases hfull : channel.buffer.length ≥ channel.capacity
  · rw [if_pos hfull, if_neg (by omega)]
    exact .failed H
  rw [if_neg hfull, if_neg hincoming]
  exact ihRead _ (Channel.length_incoming_read hincoming (Nat.lt_of_not_le hfull)) H.read rfl

theorem feed_eq_done_iff {after : List φ} :
    receiver.feed capacity state (frames ++ after) = .done result after ↔
      receiver.play state frames = some result ∧
        ∀ frame ∈ frames, (receiver.framing.wire frame).length ≤ capacity := by
  induction frames generalizing state with
  | nil =>
    refine ⟨fun h => ?_, fun h => absurd h.1 nofun⟩
    have hshorter (state : σ) (frames : List φ) {rest : List φ}
        (h : receiver.feed capacity state frames = .done result rest) :
        rest.length < frames.length := by
      induction frames generalizing state with
      | nil => cases h
      | cons frame frames ih =>
      rw [feed] at h
      split at h
      · split at h
        · exact Nat.lt_succ_of_lt (ih _ h)
        · cases h
          exact Nat.lt_succ_self _
        cases h
      cases h
    exact absurd (hshorter state _ h) (Nat.lt_irrefl _)
  | cons frame frames ih =>
  rw [cons_append, feed, play, forall_mem_cons]
  split
  · rename_i hfits
    cases receiver.step state frame with
    | next state =>
      simp only [ih, hfits, true_and]
    | done other =>
      simp only [Ending.done.injEq]
      constructor
      · rintro ⟨rfl, hafter⟩
        have hnil : frames = [] := List.append_left_eq_self.1 hafter
        subst hnil
        exact ⟨rfl, hfits, fun _ hother => absurd hother not_mem_nil⟩
      rintro ⟨hres, -⟩
      split at hres
      · rename_i hnil
        cases hres
        rw [List.isEmpty_iff.1 hnil]
        exact ⟨rfl, rfl⟩
      cases hres
    | failed error => exact ⟨nofun, nofun⟩
  rename_i hlarge
  exact ⟨nofun, fun h => absurd h.2.1 hlarge⟩

/-- What is left of the same frames is the same if its bytes are as many. -/
theorem suffix_eq {framing : Framing φ} {rest' : List φ}
    (heq : before ++ rest = before' ++ rest') (hvalid : ∀ frame ∈ before ++ rest, framing.Valid frame)
    (hbytes : rest.flatMap framing.wire = rest'.flatMap framing.wire) : rest = rest' := by
  have hnil {mid : List φ} (hmid : ∀ frame ∈ mid, framing.Valid frame)
      (hempty : mid.flatMap framing.wire = []) : mid = [] := by
    cases mid with
    | nil => rfl
    | cons frame mid =>
    rw [flatMap_cons] at hempty
    have hfront := framing.front_wire [] (hmid frame (mem_cons_self ..))
    have hpos := (framing.consumed_le hfront).1
    rw [(List.append_eq_nil_iff.1 hempty).1] at hpos
    exact absurd hpos (Nat.lt_irrefl _)
  rcases List.append_eq_append_iff.1 heq with ⟨mid, rfl, rfl⟩ | ⟨mid, rfl, rfl⟩
  · rw [flatMap_append] at hbytes
    rw [hnil (fun frame hframe => hvalid frame (by simp [hframe]))
      (List.append_left_eq_self.1 hbytes), nil_append]
  rw [flatMap_append] at hbytes
  rw [hnil (fun frame hframe => hvalid frame (by simp [hframe]))
    (List.append_left_eq_self.1 hbytes.symm), nil_append]

theorem feed_suffix (h : receiver.feed capacity state frames = .done result rest) :
    ∃ taken, frames = taken ++ rest := by
  induction frames generalizing state with
  | nil => cases h
  | cons frame frames ih =>
  rw [feed] at h
  split at h
  · split at h
    · obtain ⟨taken, rfl⟩ := ih h
      exact ⟨frame :: taken, rfl⟩
    · cases h
      exact ⟨[frame], rfl⟩
    cases h
  cases h

/-- A run that is done takes these frames, no more and no less, if and only if it is done at the
last of them and the ring buffer can hold each of them. -/
theorem run_done_iff {after : List φ}
    (H : channel.Holds receiver.framing capacity (frames ++ after)) :
    (∃ rest, receiver.run state channel = .done result rest ∧
        rest.unread = after.flatMap receiver.framing.wire) ↔
      receiver.play state frames = some result ∧
        ∀ frame ∈ frames, (receiver.framing.wire frame).length ≤ capacity := by
  have hfeed : receiver.feed capacity state (frames ++ after) = .done result after ↔ _ :=
    feed_eq_done_iff
  rw [← hfeed]
  have hrelated : Ending.Related _ (receiver.run state channel) _ := run_related H
  constructor
  · rintro ⟨rest, hrun, hunread⟩
    rw [hrun] at hrelated
    generalize hending : receiver.feed capacity state (frames ++ after) = ending at hrelated
    cases hrelated with
    | done hrest =>
    obtain ⟨taken, htaken⟩ := feed_suffix hending
    have heq := suffix_eq htaken H.valid (hunread.symm.trans hrest.unread_eq)
    rw [heq]
  intro hfeed
  rw [hfeed] at hrelated
  generalize receiver.run state channel = ending at hrelated
  cases hrelated with
  | done hrest => exact ⟨_, rfl, hrest.unread_eq⟩

end Receiver

end Galay.Lib
