import Galay.Kernel.AsyncWaiterInvariant
import Galay.Lib.Run

/-!
# A wait is over once

What the callers of a waiter saw is kept beside it. A wait for a value that times out leaves its
waker behind; every other way out of a wait takes it back or closes the waiter.
-/

namespace Galay.Kernel.AsyncWaiter

open Galay.Lib

variable {α : Type}

/-! ## What the callers saw -/

def State.isCompleted (state : State α) : Bool :=
  match state.phase with
  | .completed _ => true
  | _ => false

structure Tracked (α : Type) where
  state : State α := {}
  /-- What the notifications returned. -/
  returns : List Bool := []
  /-- The value of the notification that returned `true`. -/
  accepted : Option α := none
  /-- How often a notification asked for the task after its wait. -/
  late : Nat := 0

namespace Tracked

variable (kind : Kind) (tracked : Tracked α)

def next (call : Call α) : Option (Tracked α) :=
  (tracked.state.call kind call).map fun state =>
    match call with
    | .notify value taken =>
      let (first, requested, _) := tracked.state.notify kind value taken
      { state
        returns := tracked.returns ++ [first]
        accepted := if first then some value else tracked.accepted
        late := if requested && tracked.state.isCompleted then tracked.late + 1 else tracked.late }
    | _ => { tracked with state }

/-- No first notification comes to a waiter for a value after a task of a scheduler gave up waiting
for it. -/
def Clean (state : State α) (call : Call α) : Bool :=
  match call, state.phase with
  | .notify .., .completed .timeout => kind = .void ∨ state.m_notified ∨ !state.scheduler
  | _, _ => true

def nextClean (call : Call α) : Option (Tracked α) :=
  if Clean kind tracked.state call then tracked.next kind call else none

def Step (kind : Kind) (tracked tracked' : Tracked α) : Prop :=
  ∃ call, tracked.next kind call = some tracked'

def CleanStep (kind : Kind) (tracked tracked' : Tracked α) : Prop :=
  ∃ call, tracked.nextClean kind call = some tracked'

/-- The task of a scheduler, or one without. -/
def start (scheduler : Bool) : Tracked α where
  state := { scheduler }

/-- One notification is the first, a wait gives its value, and nobody asks for the task after its
wait. -/
structure Once (tracked : Tracked α) : Prop where
  returns : tracked.returns = [] ∨ ∃ n, tracked.returns = true :: List.replicate n false
  value : ∀ value, tracked.state.phase = .completed (.value value) → tracked.accepted = some value
  done : tracked.state.phase = .completed .done → tracked.accepted.isSome
  late : tracked.late = 0
  quiet : tracked.state.isCompleted → tracked.state.m_queued = false

end Tracked

section

variable {kind : Kind} {accepted : Option α} {state : State α} {outcome : Outcome α}

/-! ## Nobody asks for the task -/

theorem cancel_m_queued : state.cancel.m_queued = state.m_queued := by
  rw [State.cancel]
  split <;> rfl

theorem markTimeout_m_queued : (state.markTimeout kind).m_queued = state.m_queued := by
  cases kind with
  | value => rfl
  | void =>
  simp only [State.markTimeout]
  split <;> rfl

theorem awaitResume_m_queued : (state.awaitResume kind).m_queued = state.m_queued := by
  cases kind with
  | value =>
    simp only [State.awaitResume]
    split <;> rfl
  | void => rfl

theorem resumeWait_m_queued : (state.resumeWait kind).m_queued = state.m_queued := by
  rw [State.resumeWait]
  split
  · simp only
    split
    · rw [awaitResume_m_queued, markTimeout_m_queued]
    rw [awaitResume_m_queued, cancel_m_queued]
  exact awaitResume_m_queued

theorem awaitSuspend_frame :
    state.awaitSuspend.2.m_queued = state.m_queued ∧ state.awaitSuspend.2.gate = state.gate := by
  simp only [State.awaitSuspend]
  split
  · exact ⟨rfl, rfl⟩
  split <;> exact ⟨rfl, rfl⟩

theorem armWaker_m_queued : state.armWaker.2.m_queued = state.m_queued := by
  rw [State.armWaker.eq_def]
  split <;> rfl

section

variable (hgate : state.gate = .kArming)

include hgate

/-- Before the waker is armed a timeout does not wake the task. -/
theorem handleTimeout_arming (taken : Bool) :
    (state.handleTimeout taken).m_queued = state.m_queued := by
  by_cases hpend : state.completion = .pending
  · simp only [State.handleTimeout, State.completeTimeout, if_pos hpend, State.requestWake, hgate]
  simp only [State.handleTimeout, State.completeTimeout, if_neg hpend]

theorem suspendTimed_m_queued (timerAdded : Bool) :
    (state.suspendTimed kind timerAdded).2.m_queued = state.m_queued := by
  simp only [State.suspendTimed]
  split
  · rw [markTimeout_m_queued, State.completeTimeout]
    split <;> rfl
  have hframe := @awaitSuspend_frame _ { state with timerWaker := true }
  split
  · rename_i next hsuspend
    rw [hsuspend] at hframe
    exact cancel_m_queued.trans hframe.1
  rename_i next hsuspend
  rw [hsuspend] at hframe
  rw [armWaker_m_queued]
  split
  · exact hframe.1
  rw [handleTimeout_arming]
  · exact hframe.1
  exact hframe.2.trans hgate

theorem suspend_m_queued (timerAdded : Bool) :
    (state.suspend kind timerAdded).m_queued = state.m_queued := by
  have hframe : (if state.timed then state.suspendTimed kind timerAdded
      else state.awaitSuspend).2.m_queued = state.m_queued := by
    split
    · exact suspendTimed_m_queued hgate timerAdded
    exact awaitSuspend_frame.1
  rw [State.suspend]
  split
  · rename_i hsuspend
    rw [hsuspend] at hframe
    exact hframe
  rename_i hsuspend
  rw [hsuspend] at hframe
  exact resumeWait_m_queued.trans hframe

end

theorem handleTimeout_phase (taken : Bool) : (state.handleTimeout taken).phase = state.phase := by
  by_cases hpend : state.completion = .pending
  · simp only [State.handleTimeout, State.completeTimeout, if_pos hpend]
    have hcases := @requestWake_cases _ { state with completion := .timeoutWon } taken
    obtain ⟨gate, queued, hwake, -⟩ := hcases
    rw [hwake]
  simp only [State.handleTimeout, State.completeTimeout, if_neg hpend]

theorem wakeUp_phase (waker taken : Bool) : (state.wakeUp waker taken).phase = state.phase := by
  rcases wakeUp_cases waker taken with hwake | ⟨-, -, hwake⟩ <;> rw [hwake]

theorem notify_phase (value : α) (taken : Bool) :
    (state.notify kind value taken).2.2.phase = state.phase := by
  cases hnotified : state.m_notified with
  | true => rw [notify_again hnotified]
  | false =>
  rw [notify_first hnotified]
  split
  · exact wakeUp_phase _ _
  rfl

theorem notify_m_queued (h : (state.notify kind value taken).2.1 = false) :
    (state.notify kind value taken).2.2.m_queued = state.m_queued := by
  cases hnotified : state.m_notified with
  | true => rw [notify_again hnotified]
  | false =>
  rw [notify_first hnotified] at h ⊢
  split
  · rename_i hwaiting
    rw [if_pos hwaiting] at h
    simp only at h ⊢
    rw [h]
    rfl
  rfl

theorem isCompleted_iff :
    state.isCompleted = true ↔ ∃ outcome, state.phase = .completed outcome := by
  rw [State.isCompleted]
  split
  · rename_i outcome hph
    exact ⟨fun _ => ⟨outcome, hph⟩, fun _ => rfl⟩
  rename_i hph
  exact ⟨nofun, fun ⟨outcome, h⟩ => absurd h (hph outcome)⟩

/-- No call but a notification puts the task into the queue once its wait is over. -/
theorem Inv.quiet (H : Inv kind accepted state) {call : Call α}
    (h : state.call kind call = some next) (hnotify : ∀ value taken, call ≠ .notify value taken)
    (hquiet : state.isCompleted = true → state.m_queued = false) :
    next.isCompleted = true → next.m_queued = false := by
  cases call with
  | wait timed =>
    simp only [State.call] at h
    split at h
    · rename_i hph
      cases h
      intro _
      split
      · exact resumeWait_m_queued.trans (H.phase.fresh (.inl hph)).m_queued
      exact (H.phase.fresh (.inl hph)).m_queued
    cases h
  | suspend timerAdded =>
    simp only [State.call] at h
    split at h
    · rename_i hph
      cases h
      have F := H.phase.fresh (.inr hph)
      exact fun _ => (suspend_m_queued F.gate timerAdded).trans F.m_queued
    cases h
  | notify value taken => exact absurd rfl (hnotify value taken)
  | fire taken =>
    simp only [State.call] at h
    split at h
    · rename_i hadded
      cases h
      intro hcompleted
      rw [isCompleted_iff, handleTimeout_phase] at hcompleted
      obtain ⟨outcome, hph⟩ := hcompleted
      have hpend := (H.phase.completed hph).timer hadded
      simp only [State.handleTimeout, State.completeTimeout, if_neg hpend]
      exact hquiet (isCompleted_iff.2 ⟨outcome, hph⟩)
    cases h
  | resume =>
    simp only [State.call] at h
    split at h
    · split at h <;> cases h
      · exact fun _ => resumeWait_m_queued
      exact fun _ => rfl
    cases h
  | finish =>
  simp only [State.call] at h
  split at h
  · cases h
    exact hquiet
  cases h

/-- After its wait the task is asked for by a first notification to a waiter that is left waiting,
and by nothing else. -/
theorem Inv.requested (H : Inv kind accepted state) (hph : state.phase = .completed outcome)
    (value : α) (taken : Bool) :
    (state.notify kind value taken).2.1 = false ↔
      Tracked.Clean kind state (.notify value taken) = true := by
  have D := H.phase.completed hph
  cases hacc : accepted with
  | some value' =>
    have hnotified : state.m_notified = true := by rw [H.core.m_notified, hacc]; rfl
    rw [notify_again hnotified, Tracked.Clean.eq_def]
    simp only [hph, hnotified]
    cases outcome <;> simp
  | none =>
  subst hacc
  have hnotified : state.m_notified = false := H.core.m_notified
  have houtcome : outcome = .timeout := by
    cases outcome with
    | value value' => cases D.value value' rfl
    | done => cases D.done rfl
    | timeout => rfl
  subst houtcome
  rw [notify_first hnotified, Tracked.Clean.eq_def]
  simp only [hph, hnotified]
  cases kind with
  | void =>
    rw [if_neg (D.void rfl)]
    simp
  | value =>
  have hstale := D.stale rfl
  cases hsched : state.scheduler with
  | false =>
    rw [if_neg]
    · simp
    intro hwaiting
    have h := (hstale.1 hwaiting).2.2
    rw [hsched] at h
    cases h
  | true =>
  have hwaiting := hstale.2 ⟨rfl, rfl, hsched⟩
  rw [if_pos hwaiting, D.m_waker rfl hwaiting]
  simp

end

/-! ## Runs -/

namespace Tracked

variable {kind : Kind} {tracked tracked' : Tracked α} {call : Call α}

theorem next_cases (h : tracked.next kind call = some tracked') :
    (∃ value taken, call = .notify value taken ∧ tracked' =
      { state := (tracked.state.notify kind value taken).2.2
        returns := tracked.returns ++ [(tracked.state.notify kind value taken).1]
        accepted := if (tracked.state.notify kind value taken).1 then some value
          else tracked.accepted
        late := if (tracked.state.notify kind value taken).2.1 && tracked.state.isCompleted
          then tracked.late + 1 else tracked.late }) ∨
    ((∀ value taken, call ≠ .notify value taken) ∧ ∃ state,
      tracked.state.call kind call = some state ∧ tracked' = { tracked with state }) := by
  rw [next, Option.map_eq_some_iff] at h
  obtain ⟨state, hcall, hnext⟩ := h
  cases call with
  | notify value taken =>
    cases hcall
    exact .inl ⟨value, taken, rfl, hnext.symm⟩
  | wait | suspend | fire | resume | finish => exact .inr ⟨nofun, state, hcall, hnext.symm⟩

/-- One of the notifications so far was accepted, or there was none. -/
def Answers (tracked : Tracked α) : Prop :=
  (tracked.returns = [] ∧ tracked.accepted = none) ∨
    ((∃ n, tracked.returns = true :: List.replicate n false) ∧ tracked.accepted.isSome)

structure Reached (kind : Kind) (tracked : Tracked α) : Prop where
  inv : Inv kind tracked.accepted tracked.state
  answers : tracked.Answers

theorem Reached.start (kind : Kind) (scheduler : Bool) :
    Reached kind (start scheduler : Tracked α) where
  inv := ⟨⟨rfl, rfl, ⟨nofun, nofun⟩, fun _ => rfl, nofun⟩, ⟨nofun, rfl, rfl, rfl, rfl, rfl⟩⟩
  answers := .inl ⟨rfl, rfl⟩

theorem notify_returns (H : Inv kind tracked.accepted tracked.state) (value : α) (taken : Bool) :
    (tracked.state.notify kind value taken).1 = !tracked.accepted.isSome := by
  cases hnotified : tracked.state.m_notified with
  | true =>
    rw [notify_again hnotified, ← H.core.m_notified, hnotified]
    rfl
  | false =>
  rw [notify_first hnotified, ← H.core.m_notified, hnotified]
  split <;> rfl

theorem Reached.next (R : Reached kind tracked) (h : tracked.next kind call = some tracked') :
    Reached kind tracked' := by
  rcases next_cases h with ⟨value, taken, rfl, rfl⟩ | ⟨hnotify, state, hcall, rfl⟩
  · refine ⟨R.inv.notify value taken, ?_⟩
    have hfirst := notify_returns R.inv value taken
    rcases R.answers with ⟨hreturns, hnone⟩ | ⟨⟨n, hreturns⟩, hsome⟩
    · rw [hnone] at hfirst
      refine .inr ⟨⟨0, ?_⟩, ?_⟩
      · simp only [hreturns, hfirst]
        rfl
      simp only [hfirst]
      rfl
    rw [hsome] at hfirst
    refine .inr ⟨⟨n + 1, ?_⟩, ?_⟩
    · simp only [hreturns, hfirst]
      rw [List.replicate_succ']
      rfl
    simp only [hfirst]
    exact hsome
  exact ⟨R.inv.call hcall hnotify, R.answers⟩

/-- Nobody has asked for the task after its wait. -/
structure Quiet (kind : Kind) (tracked : Tracked α) : Prop extends Reached kind tracked where
  late : tracked.late = 0
  quiet : tracked.state.isCompleted = true → tracked.state.m_queued = false

theorem Quiet.notify (Q : Quiet kind tracked) {value : α} {taken : Bool}
    (hclean : Clean kind tracked.state (.notify value taken) = true) :
    ((tracked.state.notify kind value taken).2.1 && tracked.state.isCompleted) = false ∧
      ((tracked.state.notify kind value taken).2.2.isCompleted = true →
        (tracked.state.notify kind value taken).2.2.m_queued = false) := by
  cases hcompleted : tracked.state.isCompleted with
  | false =>
    refine ⟨Bool.and_false _, ?_⟩
    intro hafter
    obtain ⟨outcome, hph⟩ := isCompleted_iff.1 hafter
    rw [notify_phase] at hph
    rw [isCompleted_iff.2 ⟨outcome, hph⟩] at hcompleted
    cases hcompleted
  | true =>
  obtain ⟨outcome, hph⟩ := isCompleted_iff.1 hcompleted
  have hreq := (Q.inv.requested hph value taken).2 hclean
  refine ⟨by rw [hreq]; rfl, ?_⟩
  intro _
  exact (notify_m_queued hreq).trans (Q.quiet hcompleted)

theorem Quiet.next (Q : Quiet kind tracked) (h : tracked.nextClean kind call = some tracked') :
    Quiet kind tracked' := by
  rw [nextClean] at h
  split at h
  · rename_i hclean
    have hreached := Q.toReached.next h
    rcases next_cases h with ⟨value, taken, rfl, rfl⟩ | ⟨hnotify, state, hcall, rfl⟩
    · obtain ⟨hlate, hquiet⟩ := Q.notify hclean
      refine ⟨hreached, ?_, hquiet⟩
      rw [hlate]
      exact Q.late
    exact ⟨hreached, Q.late, Q.inv.quiet hcall hnotify Q.quiet⟩
  cases h

theorem Quiet.once (Q : Quiet kind tracked) : Once tracked where
  returns := Q.answers.imp And.left And.left
  value value hph := (Q.inv.phase.completed hph).value value rfl
  done hph := (Q.inv.phase.completed hph).done rfl
  late := Q.late
  quiet := Q.quiet

/-- In a run without a notification that comes too late for a value, a wait is over once; and only
such a notification asks for a task after its wait. -/
theorem resumed_once_iff_clean (kind : Kind) (scheduler : Bool) :
    (∀ tracked : Tracked α, Relation.ReflTransGen (CleanStep kind) (start scheduler) tracked →
      Once tracked) ∧
    ∀ tracked : Tracked α, Relation.ReflTransGen (Step kind) (start scheduler) tracked →
      ∀ outcome, tracked.state.phase = .completed outcome → ∀ value taken,
        (tracked.state.notify kind value taken).2.1 = false ↔
          Clean kind tracked.state (.notify value taken) = true := by
  constructor
  · intro tracked hreaches
    have hstart : Quiet kind (start scheduler : Tracked α) := ⟨.start kind scheduler, rfl, nofun⟩
    have hstep (a b : Tracked α) (Q : Quiet kind a) (h : CleanStep kind a b) : Quiet kind b := by
      obtain ⟨call, hcall⟩ := h
      exact Q.next hcall
    exact (invariant_of_reaches hstep hstart hreaches).once
  intro tracked hreaches outcome hph value taken
  have hstep (a b : Tracked α) (R : Reached kind a) (h : Step kind a b) : Reached kind b := by
    obtain ⟨call, hcall⟩ := h
    exact R.next hcall
  have hreached := invariant_of_reaches hstep (.start kind scheduler) hreaches
  exact hreached.inv.requested hph value taken

/-- A notification wins against the timer, and a second one comes after the wait. -/
theorem resumed_once_of_value : ∃ tracked : Tracked Nat,
    tracked.state.phase = .completed (.value 7) ∧ tracked.returns = [true, false] ∧
      Once tracked := by
  have hrun : [.wait true, .suspend true, .notify 7 true, .resume, .notify 8 true,
      .fire true].foldlM (nextClean .value) (start true : Tracked Nat) = some _ := rfl
  exact ⟨_, rfl, rfl, (resumed_once_iff_clean .value true).1 _ (reaches_of_foldlM hrun)⟩

/-- The wait for a value times out, and a notification asks for the task after it. -/
theorem not_resumed_once_after_timeout : ¬ ∀ tracked : Tracked Nat,
    Relation.ReflTransGen (Step .value) (start true) tracked → Once tracked := by
  intro h
  have hrun : [.wait true, .suspend true, .fire true, .resume, .notify 7 true].foldlM
      (next .value) (start true : Tracked Nat) = some _ := rfl
  cases (h _ (reaches_of_foldlM hrun)).late

end Tracked

end Galay.Kernel.AsyncWaiter
