import Galay.Http2.Base
import Galay.Lib.AListMap

/-!
# Send windows (`kernel/flow_control.cc`)

The windows are `int64_t` in the source; in every reachable state they and all sums the code forms
are far from its limits, so they are integers here. A call returns its result and the state after it.
-/

namespace Galay.Http2

open Galay.Lib

def kH2MaxFlowControlWindow : Int := 0x7fffffff

inductive H2FlowControlError
  | WindowOverflow
  | UnknownStream
  | InsufficientWindow
  deriving DecidableEq, Repr

/-- The controller, with the fields of its `H2SendWindow`. -/
structure H2FlowController where
  connWindow : Int := kDefaultInitialWindowSize.toNat
  initialStreamWindow : Int := kDefaultInitialWindowSize.toNat
  streamWindows : AList fun _ : UInt32 => Int := ∅

namespace H2FlowController

abbrev Result := Except H2FlowControlError Unit

def wouldExceedMaxWindow (current : Int) (increment : UInt32) : Bool :=
  current > kH2MaxFlowControlWindow - increment.toNat

variable (s : H2FlowController)

def ensureStream (streamId : UInt32) : Result × H2FlowController :=
  match s.streamWindows.lookup streamId with
  | some _ => (.ok (), s)
  | none =>
    (.ok (), { s with streamWindows := s.streamWindows.insert streamId s.initialStreamWindow })

def applyConnectionWindowUpdate (increment : UInt32) :
    Result × H2FlowController :=
  if wouldExceedMaxWindow s.connWindow increment then (.error .WindowOverflow, s)
  else (.ok (), { s with connWindow := s.connWindow + increment.toNat })

def applyStreamWindowUpdate (streamId increment : UInt32) :
    Result × H2FlowController :=
  match s.streamWindows.lookup streamId with
  | none => (.error .UnknownStream, s)
  | some window =>
    if wouldExceedMaxWindow window increment then (.error .WindowOverflow, s)
    else
      (.ok (), { s with
        streamWindows := s.streamWindows.insert streamId (window + increment.toNat) })

def applyInitialStreamWindowSize (newSize : UInt32) :
    Result × H2FlowController :=
  if (newSize.toNat : Int) > kH2MaxFlowControlWindow then (.error .WindowOverflow, s)
  else
    let delta := newSize.toNat - s.initialStreamWindow
    if s.streamWindows.entries.any fun entry => entry.2 + delta > kH2MaxFlowControlWindow then
      (.error .WindowOverflow, s)
    else
      (.ok (), { s with
        initialStreamWindow := newSize.toNat
        streamWindows := mapValues (· + delta) s.streamWindows })

def availableToSend (streamId : UInt32) (requested : Nat) (maxFrameSize : UInt32) : Nat:=
  match s.streamWindows.lookup streamId with
  | none => 0
  | some window =>
    if s.connWindow ≤ 0 ∨ window ≤ 0 ∨ requested = 0 ∨ maxFrameSize = 0 then 0
    else min requested (min maxFrameSize.toNat (min s.connWindow.toNat window.toNat))

def consumeSendWindow (streamId : UInt32) (bytes : Nat) :
    Result × H2FlowController :=
  match s.streamWindows.lookup streamId with
  | none => (.error .UnknownStream, s)
  | some window =>
    if bytes > (max 0 s.connWindow).toNat ∨ bytes > (max 0 window).toNat then
      (.error .InsufficientWindow, s)
    else
      (.ok (), { s with
        connWindow := s.connWindow - bytes
        streamWindows := s.streamWindows.insert streamId (window - bytes) })

variable {s}

/-! ## Runs -/

inductive Call
  | ensureStream (streamId : UInt32)
  | applyConnectionWindowUpdate (increment : UInt32)
  | applyStreamWindowUpdate (streamId increment : UInt32)
  | applyInitialStreamWindowSize (newSize : UInt32)
  | consumeSendWindow (streamId : UInt32) (bytes : Nat)
  deriving DecidableEq, Repr

def step (s : H2FlowController) : Call → Result × H2FlowController
  | .ensureStream streamId => s.ensureStream streamId
  | .applyConnectionWindowUpdate increment => s.applyConnectionWindowUpdate increment
  | .applyStreamWindowUpdate streamId increment => s.applyStreamWindowUpdate streamId increment
  | .applyInitialStreamWindowSize newSize => s.applyInitialStreamWindowSize newSize
  | .consumeSendWindow streamId bytes => s.consumeSendWindow streamId bytes

def run (s : H2FlowController) (calls : List Call) : H2FlowController :=
  calls.foldl (fun s call => (s.step call).2) s

/-- What a call adds to the window of a stream. -/
def Call.increment (streamId : UInt32) : Call → Nat
  | .applyStreamWindowUpdate other increment => if other = streamId then increment.toNat else 0
  | _ => 0

/-- What a call takes from the window of a stream. -/
def Call.bytes (streamId : UInt32) : Call → Nat
  | .consumeSendWindow other bytes => if other = streamId then bytes else 0
  | _ => 0

/-- The amount of a call, if it succeeds. -/
def okAmount (amount : Call → Nat) (s : H2FlowController) (call : Call) : Nat :=
  match (s.step call).1 with
  | .ok _ => amount call
  | .error _ => 0

/-- The sum of the amounts of the calls of a run that succeed. -/
def succeeded (amount : Call → Nat) : H2FlowController → List Call → Nat
  | _, [] => 0
  | s, call :: calls => okAmount amount s call + succeeded amount (s.step call).2 calls

/-! ## What the calls do -/

section Cases
variable (s : H2FlowController)

theorem ensureStream_cases (streamId : UInt32) :
    s.ensureStream streamId = (.ok (), s) ∨
    (s.streamWindows.lookup streamId = none ∧ s.ensureStream streamId =
      (.ok (), { s with streamWindows := s.streamWindows.insert streamId s.initialStreamWindow })) := by
  unfold ensureStream
  split
  · exact .inl rfl
  next h => exact .inr ⟨h, rfl⟩

theorem applyConnectionWindowUpdate_cases (increment : UInt32) :
    (∃ error, s.applyConnectionWindowUpdate increment = (.error error, s)) ∨
    (s.connWindow + increment.toNat ≤ kH2MaxFlowControlWindow ∧
      s.applyConnectionWindowUpdate increment =
        (.ok (), { s with connWindow := s.connWindow + increment.toNat })) := by
  unfold applyConnectionWindowUpdate
  split
  · exact .inl ⟨_, rfl⟩
  next hfits =>
  simp only [wouldExceedMaxWindow, decide_eq_true_eq] at hfits
  exact .inr ⟨by omega, rfl⟩

theorem applyStreamWindowUpdate_cases (streamId increment : UInt32) :
    (∃ error, s.applyStreamWindowUpdate streamId increment = (.error error, s)) ∨
    ∃ window, s.streamWindows.lookup streamId = some window ∧
      window + increment.toNat ≤ kH2MaxFlowControlWindow ∧
      s.applyStreamWindowUpdate streamId increment = (.ok (), { s with
        streamWindows := s.streamWindows.insert streamId (window + increment.toNat) }) := by
  unfold applyStreamWindowUpdate
  split
  · exact .inl ⟨_, rfl⟩
  next window hwin =>
  split
  · exact .inl ⟨_, rfl⟩
  next hfits =>
  simp only [wouldExceedMaxWindow, decide_eq_true_eq] at hfits
  exact .inr ⟨window, hwin, by omega, rfl⟩

theorem applyInitialStreamWindowSize_cases (newSize : UInt32) :
    (∃ error, s.applyInitialStreamWindowSize newSize = (.error error, s)) ∨
    ((newSize.toNat : Int) ≤ kH2MaxFlowControlWindow ∧
      (∀ streamId window, s.streamWindows.lookup streamId = some window →
        window + (newSize.toNat - s.initialStreamWindow) ≤ kH2MaxFlowControlWindow) ∧
      s.applyInitialStreamWindowSize newSize = (.ok (), { s with
        initialStreamWindow := newSize.toNat
        streamWindows := mapValues (· + (newSize.toNat - s.initialStreamWindow)) s.streamWindows })) := by
  unfold applyInitialStreamWindowSize
  split
  · exact .inl ⟨_, rfl⟩
  next hsize =>
  dsimp only
  split
  · exact .inl ⟨_, rfl⟩
  next hfits =>
  refine .inr ⟨by omega, fun streamId window hwin => ?_, rfl⟩
  have hle := of_decide_eq_false (lookup_of_not_any (p := fun window : Int =>
    decide (window + (newSize.toNat - s.initialStreamWindow) > kH2MaxFlowControlWindow)) hfits hwin)
  omega

theorem consumeSendWindow_cases (streamId : UInt32) (bytes : Nat) :
    (∃ error, s.consumeSendWindow streamId bytes = (.error error, s)) ∨
    ∃ window, s.streamWindows.lookup streamId = some window ∧
      bytes ≤ (max 0 s.connWindow).toNat ∧ bytes ≤ (max 0 window).toNat ∧
      s.consumeSendWindow streamId bytes = (.ok (), { s with
        connWindow := s.connWindow - bytes
        streamWindows := s.streamWindows.insert streamId (window - bytes) }) := by
  unfold consumeSendWindow
  split
  · exact .inl ⟨_, rfl⟩
  next window hwin =>
  split
  · exact .inl ⟨_, rfl⟩
  next hfits => exact .inr ⟨window, hwin, by omega, by omega, rfl⟩

end Cases

theorem step_error {s : H2FlowController}
    (h : (s.step call).1 = .error error) : (s.step call).2 = s := by
  cases call with
  | ensureStream streamId =>
    simp only [step] at h
    rcases s.ensureStream_cases streamId with heq | ⟨-, heq⟩ <;> rw [heq] at h <;> exact nomatch h
  | applyConnectionWindowUpdate increment =>
    simp only [step] at h ⊢
    rcases s.applyConnectionWindowUpdate_cases increment with ⟨_, heq⟩ | ⟨-, heq⟩
    · rw [heq]
    rw [heq] at h
    exact nomatch h
  | applyStreamWindowUpdate streamId increment =>
    simp only [step] at h ⊢
    rcases s.applyStreamWindowUpdate_cases streamId increment with ⟨_, heq⟩ | ⟨_, -, -, heq⟩
    · rw [heq]
    rw [heq] at h
    exact nomatch h
  | applyInitialStreamWindowSize newSize =>
    simp only [step] at h ⊢
    rcases s.applyInitialStreamWindowSize_cases newSize with ⟨_, heq⟩ | ⟨-, -, heq⟩
    · rw [heq]
    rw [heq] at h
    exact nomatch h
  | consumeSendWindow streamId bytes =>
  simp only [step] at h ⊢
  rcases s.consumeSendWindow_cases streamId bytes with ⟨_, heq⟩ | ⟨_, -, -, -, heq⟩
  · rw [heq]
  rw [heq] at h
  exact nomatch h

/-! ## The invariant -/

/-- The windows are in their ranges, and that of a stream is the initial window with what was
accepted and consumed on it. A stream that was emptied keeps that debt when the initial window
shrinks, so the lower bound is one on what was consumed. -/
structure Inv (s : H2FlowController) (accepted consumed : UInt32 → Nat) : Prop where
  connWindow_nonneg : 0 ≤ s.connWindow
  connWindow_le : s.connWindow ≤ kH2MaxFlowControlWindow
  initial_nonneg : 0 ≤ s.initialStreamWindow
  initial_le : s.initialStreamWindow ≤ kH2MaxFlowControlWindow
  absent : ∀ streamId, s.streamWindows.lookup streamId = none →
    accepted streamId = 0 ∧ consumed streamId = 0
  window : ∀ streamId window, s.streamWindows.lookup streamId = some window →
    window = s.initialStreamWindow + accepted streamId - consumed streamId ∧
      window ≤ kH2MaxFlowControlWindow ∧
      (consumed streamId : Int) ≤ accepted streamId + kH2MaxFlowControlWindow

theorem inv_init : Inv {} (fun _ => 0) fun _ => 0 where
  connWindow_nonneg := by decide
  connWindow_le := by decide
  initial_nonneg := by decide
  initial_le := by decide
  absent _ _ := ⟨rfl, rfl⟩
  window _ _ h := nomatch h

section Steps
variable {s : H2FlowController} {accepted consumed : UInt32 → Nat} (h : s.Inv accepted consumed)
include h

theorem Inv.ensureStream (streamId : UInt32) :
    (s.ensureStream streamId).2.Inv accepted consumed := by
  rcases s.ensureStream_cases streamId with heq | ⟨habsent, heq⟩
  · rw [heq]
    exact h
  rw [heq]
  refine { h with absent := fun other hother => ?_, window := fun other window hother => ?_ }
  · by_cases hid : other = streamId
    · subst hid
      exact h.absent other habsent
    rw [AList.lookup_insert_ne hid] at hother
    exact h.absent other hother
  by_cases hid : other = streamId
  · subst hid
    rw [AList.lookup_insert] at hother
    obtain rfl := Option.some.inj hother
    obtain ⟨ha, hc⟩ := h.absent other habsent
    have hle := h.initial_le
    have hnonneg := h.initial_nonneg
    rw [ha, hc]
    dsimp only
    refine ⟨by omega, hle, by omega⟩
  rw [AList.lookup_insert_ne hid] at hother
  exact h.window other window hother

theorem Inv.applyConnectionWindowUpdate (increment : UInt32) :
    (s.applyConnectionWindowUpdate increment).2.Inv accepted consumed := by
  rcases s.applyConnectionWindowUpdate_cases increment with ⟨_, heq⟩ | ⟨hfits, heq⟩
  · rw [heq]
    exact h
  rw [heq]
  have hnonneg := h.connWindow_nonneg
  exact { h with connWindow_nonneg := by dsimp only; omega, connWindow_le := hfits }

theorem Inv.setStream {streamId : UInt32} {old new conn : Int} {increment bytes : Nat}
    (hold : s.streamWindows.lookup streamId = some old) (hnew : new = old + increment - bytes)
    (hle : new ≤ kH2MaxFlowControlWindow) (hbytes : bytes = 0 ∨ 0 ≤ new)
    (hconn : 0 ≤ conn ∧ conn ≤ kH2MaxFlowControlWindow) :
    Inv { s with connWindow := conn, streamWindows := s.streamWindows.insert streamId new }
      (fun other => accepted other + if streamId = other then increment else 0)
      (fun other => consumed other + if streamId = other then bytes else 0) where
  __ := h
  connWindow_nonneg := hconn.1
  connWindow_le := hconn.2
  absent other hother := by
    have hid : other ≠ streamId := by
      rintro rfl
      rw [AList.lookup_insert] at hother
      exact nomatch hother
    rw [AList.lookup_insert_ne hid] at hother
    rw [if_neg hid.symm, if_neg hid.symm]
    exact h.absent other hother
  window other window hother := by
    by_cases hid : other = streamId
    · subst hid
      rw [AList.lookup_insert] at hother
      obtain rfl := Option.some.inj hother
      obtain ⟨heq, -, hlow⟩ := h.window other old hold
      have hinit := h.initial_le
      rw [if_pos rfl, if_pos rfl]
      dsimp only
      -- bytes are only taken from a window that covers them
      refine ⟨by push_cast; omega, hle, ?_⟩
      push_cast
      rcases hbytes with hbytes | hbytes <;> omega
    rw [AList.lookup_insert_ne hid] at hother
    rw [if_neg (Ne.symm hid), if_neg (Ne.symm hid)]
    exact h.window other window hother

theorem Inv.applyInitialStreamWindowSize (newSize : UInt32) :
    (s.applyInitialStreamWindowSize newSize).2.Inv accepted consumed := by
  rcases s.applyInitialStreamWindowSize_cases newSize with ⟨_, heq⟩ | ⟨hsize, hfits, heq⟩
  · rw [heq]
    exact h
  rw [heq]
  refine { h with
    initial_nonneg := Int.natCast_nonneg _
    initial_le := hsize
    absent := fun other hother => ?_
    window := fun other window hother => ?_ }
  · rw [lookup_mapValues, Option.map_eq_none_iff] at hother
    exact h.absent other hother
  rw [lookup_mapValues, Option.map_eq_some_iff] at hother
  obtain ⟨old, hold, rfl⟩ := hother
  obtain ⟨hbooks, -, hlow⟩ := h.window other old hold
  exact ⟨by dsimp only; omega, hfits other old hold, hlow⟩

end Steps

theorem okAmount_eq_zero {s : H2FlowController}
    (h : amount call = 0) : s.okAmount amount call = 0 := by
  unfold okAmount
  split
  · exact h
  rfl

/-- A call whose amounts are `0` leaves the books as they are. -/
theorem Inv.of_zero {s s' : H2FlowController}
    (h : s'.Inv accepted consumed) (hincr : ∀ streamId, call.increment streamId = 0)
    (hbytes : ∀ streamId, call.bytes streamId = 0) :
    s'.Inv (fun streamId => accepted streamId + s.okAmount (·.increment streamId) call)
      (fun streamId => consumed streamId + s.okAmount (·.bytes streamId) call) := by
  have ha : (fun streamId => accepted streamId + s.okAmount (·.increment streamId) call) = accepted :=
    funext fun streamId => by rw [okAmount_eq_zero (hincr streamId), Nat.add_zero]
  have hc : (fun streamId => consumed streamId + s.okAmount (·.bytes streamId) call) = consumed :=
    funext fun streamId => by rw [okAmount_eq_zero (hbytes streamId), Nat.add_zero]
  rw [ha, hc]
  exact h

theorem Inv.step {s : H2FlowController} {accepted consumed : UInt32 → Nat}
    (h : s.Inv accepted consumed) (call : Call) :
    (s.step call).2.Inv (fun streamId => accepted streamId + s.okAmount (·.increment streamId) call)
      (fun streamId => consumed streamId + s.okAmount (·.bytes streamId) call) := by
  cases call with
  | ensureStream streamId => exact (h.ensureStream streamId).of_zero (fun _ => rfl) fun _ => rfl
  | applyConnectionWindowUpdate increment =>
    exact (h.applyConnectionWindowUpdate increment).of_zero (fun _ => rfl) fun _ => rfl
  | applyInitialStreamWindowSize newSize =>
    exact (h.applyInitialStreamWindowSize newSize).of_zero (fun _ => rfl) fun _ => rfl
  | applyStreamWindowUpdate streamId increment =>
    unfold okAmount
    simp only [H2FlowController.step]
    rcases s.applyStreamWindowUpdate_cases streamId increment with ⟨_, heq⟩ | ⟨window, hwin, hfits, heq⟩
    · rw [heq]
      exact h
    rw [heq]
    have hset := @Inv.setStream s accepted consumed h streamId window _ _ increment.toNat 0 hwin
      (by simp) hfits (.inl rfl) ⟨h.connWindow_nonneg, h.connWindow_le⟩
    simp only [ite_self] at hset
    exact hset
  | consumeSendWindow streamId bytes =>
  unfold okAmount
  simp only [H2FlowController.step]
  rcases s.consumeSendWindow_cases streamId bytes with ⟨_, heq⟩ | ⟨window, hwin, hconn, hbytes, heq⟩
  · rw [heq]
    exact h
  rw [heq]
  have hle := (h.window streamId window hwin).2.1
  have hnonneg := h.connWindow_nonneg
  have hmax := h.connWindow_le
  have hset := @Inv.setStream s accepted consumed h streamId window (window - bytes)
    (s.connWindow - bytes) 0 bytes hwin (by simp) (by omega) (by omega) ⟨by omega, by omega⟩
  simp only [ite_self] at hset
  exact hset

theorem Inv.run {s : H2FlowController} {accepted consumed : UInt32 → Nat}
    (h : s.Inv accepted consumed) (calls : List Call) :
    (s.run calls).Inv (fun streamId => accepted streamId + succeeded (·.increment streamId) s calls)
      (fun streamId => consumed streamId + succeeded (·.bytes streamId) s calls) := by
  induction calls generalizing s accepted consumed with
  | nil => exact h
  | cons call calls ih =>
  have hrest := ih (h.step call)
  simp only [Nat.add_assoc] at hrest
  exact hrest

/-- What is available can be consumed, in every state. -/
theorem consume_availableToSend {s : H2FlowController} {window : Int}
    (h : s.streamWindows.lookup streamId = some window) (requested : Nat) (maxFrameSize : UInt32) :
    (s.consumeSendWindow streamId (s.availableToSend streamId requested maxFrameSize)).1 = .ok () := by
  unfold consumeSendWindow availableToSend
  rw [h]
  dsimp only
  split
  · rw [if_neg (by omega)]
  rw [if_neg (by omega)]

/-- The windows over every run: ranges, books, failed calls, and what is available. -/
theorem run_windows (calls : List Call) :
    let s := ({} : H2FlowController).run calls
    (0 ≤ s.connWindow ∧ s.connWindow ≤ kH2MaxFlowControlWindow) ∧
    (∀ streamId window, s.streamWindows.lookup streamId = some window →
      -kH2MaxFlowControlWindow ≤ window ∧ window ≤ kH2MaxFlowControlWindow ∧
      window = s.initialStreamWindow + succeeded (·.increment streamId) {} calls -
        succeeded (·.bytes streamId) {} calls) ∧
    (∀ call error, (s.step call).1 = .error error → (s.step call).2 = s) ∧
    (∀ streamId requested maxFrameSize, streamId ∈ s.streamWindows →
      (s.consumeSendWindow streamId (s.availableToSend streamId requested maxFrameSize)).1 = .ok ()) := by
  have hinv := inv_init.run calls
  simp only [Nat.zero_add] at hinv
  refine ⟨⟨hinv.connWindow_nonneg, hinv.connWindow_le⟩, ?_, fun _ _ => step_error, ?_⟩
  · intro streamId window hwin
    obtain ⟨heq, hle, hlow⟩ := hinv.window streamId window hwin
    have hnonneg := hinv.initial_nonneg
    exact ⟨by omega, hle, heq⟩
  intro streamId requested maxFrameSize hmem
  obtain ⟨window, hwin⟩ := Option.isSome_iff_exists.1 (AList.lookup_isSome.2 hmem)
  exact consume_availableToSend hwin requested maxFrameSize

end H2FlowController

end Galay.Http2
