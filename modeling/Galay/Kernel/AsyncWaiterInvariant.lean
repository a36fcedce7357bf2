import Galay.Kernel.AsyncWaiter

/-!
# The invariant of a waiter

What a waiter holds depends on the value it has accepted, if any, and on where its task is. Each call
keeps the invariant.
-/

namespace Galay.Kernel.AsyncWaiter

variable {α : Type}

/-! ## The invariant -/

/-- What the waiter holds once a notification was accepted. -/
structure Core (kind : Kind) (accepted : Option α) (state : State α) : Prop where
  m_notified : state.m_notified = accepted.isSome
  m_ready : state.m_ready = accepted.isSome
  m_state : state.m_state = .kReady ↔ accepted.isSome
  m_result : kind = .value → state.m_result = accepted
  m_queued : state.m_queued = true → state.scheduler = true

/-- A waiter that nobody has waited on. -/
structure Fresh (state : State α) : Prop where
  m_state : state.m_state ≠ .kWaiting
  timeoutMarked : state.timeoutMarked = false
  completion : state.completion = .pending
  gate : state.gate = .kArming
  timerAdded : state.timerAdded = false
  m_queued : state.m_queued = false

structure Suspended (accepted : Option α) (state : State α) : Prop where
  m_waker : state.m_waker = true
  timeoutMarked : state.timeoutMarked = false
  m_state : accepted = none → state.m_state = .kWaiting
  m_queued : state.m_queued = true → accepted.isSome ∨ state.timeouted = true
  untimed : state.timed = false → state.timerAdded = false ∧ state.completion = .pending

/-- Only a wait for a value leaves the waiter waiting, where it has timed out. -/
structure Completed (kind : Kind) (accepted : Option α) (state : State α) (outcome : Outcome α) :
    Prop where
  value : ∀ value, outcome = .value value → accepted = some value
  done : outcome = .done → accepted.isSome
  void : kind = .void → state.m_state ≠ .kWaiting
  stale : kind = .value →
    (state.m_state = .kWaiting ↔ outcome = .timeout ∧ accepted = none ∧ state.scheduler = true)
  m_waker : kind = .value → state.m_state = .kWaiting → state.m_waker = true
  timer : state.timerAdded = true → state.completion ≠ .pending

def PhaseOk (kind : Kind) (accepted : Option α) (state : State α) : Prop :=
  match state.phase with
  | .idle | .refused => Fresh state
  | .suspended => Suspended accepted state
  | .completed outcome => Completed kind accepted state outcome

structure Inv (kind : Kind) (accepted : Option α) (state : State α) : Prop where
  core : Core kind accepted state
  phase : PhaseOk kind accepted state

section

variable {kind : Kind} {accepted : Option α} {state : State α} {outcome : Outcome α}

section

variable (h : PhaseOk kind accepted state)
include h

theorem PhaseOk.fresh (hph : state.phase = .idle ∨ state.phase = .refused) : Fresh state := by
  rcases hph with hph | hph <;> rw [PhaseOk, hph] at h <;> exact h

theorem PhaseOk.suspended (hph : state.phase = .suspended) :
    Suspended accepted state := by
  rwa [PhaseOk, hph] at h

theorem PhaseOk.completed (hph : state.phase = .completed outcome) :
    Completed kind accepted state outcome := by
  rwa [PhaseOk, hph] at h

end

theorem Core.ne_waiting (H : Core kind accepted state) (hacc : accepted.isSome) :
    state.m_state ≠ .kWaiting := by
  rw [H.m_state.2 hacc]
  exact nofun

/-! ## Going on -/

/-- What has to hold where a wait goes on. -/
structure Resumable (accepted : Option α) (state : State α) : Prop where
  timeoutMarked : state.timeoutMarked = true → state.timeouted = true
  timeouted : accepted = none → state.timed = true ∧ state.timeouted = true
  waiting : accepted = none → (state.m_state = .kWaiting ↔ state.scheduler = true)
  m_waker : state.m_state = .kWaiting → state.m_waker = true
  timer : state.timed = false → state.timerAdded = false

/-- The wait is over once its timer cannot win any more. -/
theorem awaitResume_value (H : Core .value accepted state)
    (hwaiting : accepted = none → (state.m_state = .kWaiting ↔ state.scheduler = true))
    (hwaker : state.m_state = .kWaiting → state.m_waker = true)
    (htimer : state.timerAdded = true → state.completion ≠ .pending) :
    Inv .value accepted (state.awaitResume .value) := by
  cases hacc : accepted with
  | none =>
    have hres : state.m_result = none := (H.m_result rfl).trans hacc
    subst hacc
    simp only [State.awaitResume, hres]
    refine ⟨{ H with m_result := fun _ => rfl }, ?_⟩
    refine ⟨nofun, nofun, nofun, fun _ => ?_, fun _ => hwaker, htimer⟩
    rw [hwaiting rfl]
    exact ⟨fun h => ⟨rfl, rfl, h⟩, fun h => h.2.2⟩
  | some value =>
  have hres : state.m_result = some value := (H.m_result rfl).trans hacc
  subst hacc
  simp only [State.awaitResume, hres]
  refine ⟨{ H with m_result := fun _ => rfl }, ?_⟩
  refine ⟨?_, nofun, nofun, fun _ => ?_, fun _ => hwaker, htimer⟩
  · intro value' h
    cases h
    rfl
  exact ⟨fun h => absurd h (H.ne_waiting rfl), nofun⟩

theorem awaitResume_void (H : Core .void accepted state) (hwaiting : state.m_state ≠ .kWaiting)
    (hdone : state.timeoutMarked = false → accepted.isSome)
    (htimer : state.timerAdded = true → state.completion ≠ .pending) :
    Inv .void accepted (state.awaitResume .void) := by
  refine ⟨{ H with m_result := nofun }, ?_⟩
  simp only [State.awaitResume, PhaseOk]
  cases hmarked : state.timeoutMarked with
  | true => exact ⟨nofun, nofun, fun _ => hwaiting, nofun, nofun, htimer⟩
  | false => exact ⟨nofun, fun _ => hdone hmarked, fun _ => hwaiting, nofun, nofun, htimer⟩

theorem cancel_ne_pending : state.cancel.completion ≠ .pending := by
  rw [State.cancel]
  split
  · exact nofun
  assumption

theorem timeouted_iff : state.timeouted = true ↔ state.completion = .timeoutWon := by
  rw [State.timeouted, decide_eq_true_iff]

theorem Core.cancel (H : Core kind accepted state) : Core kind accepted state.cancel := by
  rw [State.cancel]
  split
  · exact { H with }
  exact H

theorem Core.clearTimer (H : Core kind accepted state) :
    Core kind accepted { state with timerWaker := false } :=
  { H with }

theorem Core.markTimeout_void (H : Core .void accepted state) :
    Core .void accepted (state.markTimeout .void) ∧
      (state.markTimeout .void).m_state ≠ .kWaiting := by
  simp only [State.markTimeout]
  split
  · rename_i hwaiting
    refine ⟨{ H with m_state := ?_, m_result := nofun }, nofun⟩
    rw [← H.m_state, hwaiting]
    exact ⟨nofun, nofun⟩
  rename_i hwaiting
  exact ⟨{ H with m_result := nofun }, hwaiting⟩

theorem markTimeout_void_frame :
    (state.markTimeout .void).timeoutMarked = true ∧
      (state.markTimeout .void).completion = state.completion := by
  simp only [State.markTimeout]
  split <;> exact ⟨rfl, rfl⟩

theorem cancel_frame :
    state.cancel.m_state = state.m_state ∧ state.cancel.m_waker = state.m_waker ∧
      state.cancel.timeoutMarked = state.timeoutMarked := by
  rw [State.cancel]
  split <;> exact ⟨rfl, rfl, rfl⟩

theorem Resumable.isSome (R : Resumable accepted state) (h : state.timeouted = false) :
    accepted.isSome := by
  cases hacc : accepted with
  | some value => rfl
  | none => rw [(R.timeouted hacc).2] at h; cases h

theorem resumeWait_value (H : Core .value accepted state) (R : Resumable accepted state) :
    Inv .value accepted (state.resumeWait .value) := by
  rw [State.resumeWait]
  split
  · simp only
    split
    · rename_i htimeouted
      apply awaitResume_value H.clearTimer R.waiting R.m_waker
      intro _ hpend
      rw [timeouted_iff] at htimeouted
      simp only [htimeouted] at hpend
      cases hpend
    rename_i htimeouted
    have hacc := R.isSome (eq_false_of_ne_true htimeouted)
    apply awaitResume_value H.clearTimer.cancel
    · intro hnone
      rw [hnone] at hacc
      cases hacc
    · rw [cancel_frame.1, cancel_frame.2.1]
      exact R.m_waker
    exact fun _ => cancel_ne_pending
  rename_i htimed
  have htimed := eq_false_of_ne_true htimed
  apply awaitResume_value H R.waiting R.m_waker
  intro hadded
  rw [R.timer htimed] at hadded
  cases hadded

theorem resumeWait_void (H : Core .void accepted state) (R : Resumable accepted state) :
    Inv .void accepted (state.resumeWait .void) := by
  rw [State.resumeWait]
  split
  · simp only
    split
    · rename_i htimeouted
      apply awaitResume_void H.clearTimer.markTimeout_void.1 H.clearTimer.markTimeout_void.2
      · intro hmarked
        rw [markTimeout_void_frame.1] at hmarked
        cases hmarked
      intro _ hpend
      rw [timeouted_iff] at htimeouted
      rw [markTimeout_void_frame.2] at hpend
      simp only [htimeouted] at hpend
      cases hpend
    rename_i htimeouted
    have hacc := R.isSome (eq_false_of_ne_true htimeouted)
    exact awaitResume_void H.clearTimer.cancel (H.clearTimer.cancel.ne_waiting hacc)
      (fun _ => hacc) (fun _ => cancel_ne_pending)
  rename_i htimed
  have htimed := eq_false_of_ne_true htimed
  have hacc : accepted.isSome := by
    cases hacc : accepted with
    | some value => rfl
    | none => rw [(R.timeouted hacc).1] at htimed; cases htimed
  apply awaitResume_void H (H.ne_waiting hacc) (fun _ => hacc)
  intro hadded
  rw [R.timer htimed] at hadded
  cases hadded

theorem resumeWait_inv (H : Core kind accepted state) (R : Resumable accepted state) :
    Inv kind accepted (state.resumeWait kind) := by
  cases kind with
  | value => exact resumeWait_value H R
  | void => exact resumeWait_void H R

theorem Resumable.of_accepted (H : Core kind accepted state) (hacc : accepted.isSome)
    (hmarked : state.timeoutMarked = false)
    (htimer : state.timed = false → state.timerAdded = false) : Resumable accepted state := by
  refine ⟨?_, ?_, ?_, fun h => absurd h (H.ne_waiting hacc), htimer⟩
  · intro h
    rw [hmarked] at h
    cases h
  all_goals
    intro h
    rw [h] at hacc
    cases hacc

/-! ## The calls -/

theorem Inv.wait (H : Inv kind accepted state) (hph : state.phase = .idle) (timed : Bool) :
    Inv kind accepted (let state := { state with timed };
      if state.m_ready then state.resumeWait kind else { state with phase := .refused }) := by
  have F := H.phase.fresh (.inl hph)
  have C : Core kind accepted { state with timed } :=
    { H.core with }
  simp only
  split
  · rename_i hready
    rw [H.core.m_ready] at hready
    exact resumeWait_inv C (.of_accepted C hready F.timeoutMarked (fun _ => F.timerAdded))
  refine ⟨{ C with }, ?_⟩
  exact { F with }

/-- A fresh waiter takes the waker, unless it is ready. -/
theorem awaitSuspend_fresh (H : Core kind accepted state) (F : Fresh state) :
    (accepted.isSome ∧ state.awaitSuspend = (false, { state with m_waker := true })) ∨
      (accepted = none ∧
        state.awaitSuspend = (true, { state with m_waker := true, m_state := .kWaiting })) := by
  cases hacc : accepted with
  | some value =>
    have hready : state.m_ready = true := by rw [H.m_ready, hacc]; rfl
    exact .inl ⟨rfl, by simp only [State.awaitSuspend, hready, if_true]⟩
  | none =>
  have hready : state.m_ready = false := by rw [H.m_ready, hacc]; rfl
  have hempty : state.m_state = .kEmpty := by
    cases hst : state.m_state with
    | kEmpty => rfl
    | kWaiting => exact absurd hst F.m_state
    | kReady =>
    have h := H.m_state.1 hst
    rw [hacc] at h
    cases h
  refine .inr ⟨rfl, ?_⟩
  simp only [State.awaitSuspend, hready, Bool.false_eq_true, if_false, hempty, if_true]

theorem Core.waitOn (H : Core kind none state) :
    Core kind none { state with m_waker := true, m_state := .kWaiting } :=
  { H with m_state := ⟨nofun, nofun⟩ }

theorem Inv.suspend_untimed (H : Core kind accepted state) (F : Fresh state)
    (htimed : state.timed = false) (timerAdded : Bool) :
    Inv kind accepted (state.suspend kind timerAdded) := by
  simp only [State.suspend, htimed, Bool.false_eq_true, if_false]
  rcases awaitSuspend_fresh H F with ⟨hacc, hsuspend⟩ | ⟨rfl, hsuspend⟩
  · rw [hsuspend]
    have C : Core kind accepted { state with m_waker := true } :=
      { H with }
    exact resumeWait_inv C (.of_accepted C hacc F.timeoutMarked (fun _ => F.timerAdded))
  rw [hsuspend]
  have C := H.waitOn
  refine ⟨{ C with }, ?_⟩
  refine ⟨rfl, F.timeoutMarked, fun _ => rfl, ?_, fun _ => ⟨F.timerAdded, F.completion⟩⟩
  intro hqueued
  rw [F.m_queued] at hqueued
  cases hqueued

/-- Without a scheduler the wait gives up before the waiter has heard of it. -/
theorem suspendTimed_unscheduled (H : Core kind accepted state) (F : Fresh state)
    (htimed : state.timed = true) (hsched : state.scheduler = false) (timerAdded : Bool) :
    ∃ next, state.suspendTimed kind timerAdded = (false, next) ∧ Core kind accepted next ∧
      Resumable accepted next := by
  have hnext : state.suspendTimed kind timerAdded = (false,
      ({ state with timerWaker := true, completion := .timeoutWon }).markTimeout kind) := by
    simp only [State.suspendTimed, hsched, State.completeTimeout, F.completion]
    rfl
  refine ⟨_, hnext, ?_⟩
  have hwaiting : accepted = none → (state.m_state = .kWaiting ↔ state.scheduler = true) := by
    intro _
    rw [hsched]
    exact ⟨fun h => absurd h F.m_state, nofun⟩
  cases kind with
  | value =>
    refine ⟨{ H with }, ?_⟩
    exact ⟨fun _ => rfl, fun _ => ⟨htimed, rfl⟩, hwaiting, fun h => absurd h F.m_state,
      fun _ => F.timerAdded⟩
  | void =>
  simp only [State.markTimeout, if_neg F.m_state]
  refine ⟨{ H with m_result := nofun }, ?_⟩
  exact ⟨fun _ => rfl, fun _ => ⟨htimed, rfl⟩, hwaiting, fun h => absurd h F.m_state,
    fun _ => F.timerAdded⟩

theorem suspendTimed_scheduled (hsched : state.scheduler = true) (timerAdded : Bool) :
    state.suspendTimed kind timerAdded =
      match ({ state with timerWaker := true }).awaitSuspend with
      | (false, state) => (false, state.cancel)
      | (true, state) =>
        let state := { state with timerAdded }
        (if timerAdded then state else state.handleTimeout false).armWaker := by
  have hnot : ¬ (!state.scheduler) = true := by
    rw [hsched]
    exact nofun
  exact if_neg hnot

theorem suspendTimed_ready (H : Core kind accepted state) (F : Fresh state)
    (hsched : state.scheduler = true) (hacc : accepted.isSome) (timerAdded : Bool) :
    ∃ next, state.suspendTimed kind timerAdded = (false, next) ∧ Core kind accepted next ∧
      Resumable accepted next := by
  have C : Core kind accepted { state with timerWaker := true } := { H with }
  rcases awaitSuspend_fresh C { F with } with ⟨-, hsuspend⟩ | ⟨rfl, -⟩
  · refine ⟨({ state with timerWaker := true, m_waker := true }).cancel, ?_, ?_⟩
    · rw [suspendTimed_scheduled hsched, hsuspend]
    have C' : Core kind accepted { state with timerWaker := true, m_waker := true } :=
      { H with }
    refine ⟨C'.cancel, .of_accepted C'.cancel hacc ?_ ?_⟩
    · exact cancel_frame.2.2.trans F.timeoutMarked
    intro _
    rw [State.cancel]
    split <;> exact F.timerAdded
  cases hacc

/-- The timer was not taken: the wait is over at once, and the waker stays in the waiter. -/
theorem suspendTimed_now (H : Core kind none state) (F : Fresh state)
    (htimed : state.timed = true) (hsched : state.scheduler = true) :
    ∃ next, state.suspendTimed kind false = (false, next) ∧ Core kind none next ∧
      Resumable none next := by
  have C : Core kind none { state with timerWaker := true } := { H with }
  rcases awaitSuspend_fresh C { F with } with ⟨hacc, -⟩ | ⟨-, hsuspend⟩
  · cases hacc
  refine ⟨{ state with
    timerWaker := true
    m_waker := true
    m_state := .kWaiting
    timerAdded := false
    completion := .timeoutWon
    gate := .kIssued }, ?_, ?_⟩
  · rw [suspendTimed_scheduled hsched, hsuspend]
    simp only [Bool.false_eq_true, if_false, State.handleTimeout, State.completeTimeout,
      F.completion, if_true, State.requestWake, F.gate, State.armWaker]
  refine ⟨{ H with m_state := ⟨nofun, nofun⟩ }, ?_⟩
  exact ⟨fun _ => rfl, fun _ => ⟨htimed, rfl⟩, fun _ => ⟨fun _ => hsched, fun _ => rfl⟩,
    fun _ => rfl, fun _ => rfl⟩

theorem suspendTimed_added (H : Core kind none state) (F : Fresh state)
    (htimed : state.timed = true) (hsched : state.scheduler = true) :
    ∃ next, state.suspendTimed kind true = (true, next) ∧ Core kind none next ∧
      Suspended none next := by
  have C : Core kind none { state with timerWaker := true } := { H with }
  rcases awaitSuspend_fresh C { F with } with ⟨hacc, -⟩ | ⟨-, hsuspend⟩
  · cases hacc
  refine ⟨{ state with
    timerWaker := true
    m_waker := true
    m_state := .kWaiting
    timerAdded := true
    gate := .kArmed }, ?_, ?_⟩
  · rw [suspendTimed_scheduled hsched, hsuspend]
    simp only [if_true, State.armWaker, F.gate]
  refine ⟨{ H with m_state := ⟨nofun, nofun⟩ }, ?_⟩
  refine ⟨rfl, F.timeoutMarked, fun _ => rfl, ?_, ?_⟩
  · intro hqueued
    rw [F.m_queued] at hqueued
    cases hqueued
  intro hfalse
  rw [htimed] at hfalse
  cases hfalse

theorem Inv.suspend_timed (H : Core kind accepted state) (F : Fresh state)
    (htimed : state.timed = true) (timerAdded : Bool) :
    Inv kind accepted (state.suspend kind timerAdded) := by
  -- Every way but the last goes on at once.
  have hresume : (∃ next, state.suspendTimed kind timerAdded = (false, next) ∧
      Core kind accepted next ∧ Resumable accepted next) →
      Inv kind accepted (state.suspend kind timerAdded) := by
    rintro ⟨next, hsuspend, C, R⟩
    simp only [State.suspend, htimed, if_true, hsuspend]
    exact resumeWait_inv C R
  cases hsched : state.scheduler with
  | false => exact hresume (suspendTimed_unscheduled H F htimed hsched timerAdded)
  | true =>
  cases hacc : accepted with
  | some value =>
    subst hacc
    exact hresume (suspendTimed_ready H F hsched rfl timerAdded)
  | none =>
  subst hacc
  cases timerAdded with
  | false => exact hresume (suspendTimed_now H F htimed hsched)
  | true =>
  obtain ⟨next, hsuspend, C, S⟩ := suspendTimed_added H F htimed hsched
  simp only [State.suspend, htimed, if_true, hsuspend]
  refine ⟨{ C with }, ?_⟩
  exact { S with }

/-- Waking the task changes its place in the queue only, and only a task of a scheduler is queued. -/
theorem wakeUp_cases (waker taken : Bool) :
    state.wakeUp waker taken = state ∨
      (waker = true ∧ state.scheduler = true ∧
        state.wakeUp waker taken = { state with m_queued := taken }) := by
  cases waker with
  | false => exact .inl rfl
  | true =>
  simp only [State.wakeUp, State.requestTaskResume, if_true]
  split
  · exact .inl rfl
  rename_i hnot
  refine .inr ⟨trivial, ?_, rfl⟩
  cases hsched : state.scheduler with
  | true => rfl
  | false => exact absurd (.inl (by rw [hsched]; rfl)) hnot

/-- The waiter that a first notification leaves, before the task is woken. -/
def notifiedState (kind : Kind) (state : State α) (value : α) : State α :=
  { state with
    m_notified := true
    m_result := match kind with
      | .value => some value
      | .void => state.m_result
    m_ready := true
    m_state := .kReady }

theorem notify_again (h : state.m_notified = true) (value : α) (taken : Bool) :
    state.notify kind value taken = (false, false, state) := by
  rw [State.notify.eq_def, if_pos h]

theorem notify_first (h : state.m_notified = false) (value : α) (taken : Bool) :
    state.notify kind value taken =
      if state.m_state = .kWaiting then
        (true, state.m_waker, (notifiedState kind state value).wakeUp state.m_waker taken)
      else (true, false, notifiedState kind state value) := by
  rw [State.notify.eq_def, if_neg (by rw [h]; exact nofun)]
  cases kind <;> rfl

theorem Core.notified (H : Core kind accepted state) (value : α) :
    Core kind (some value) (notifiedState kind state value) := by
  refine ⟨rfl, rfl, ⟨fun _ => rfl, fun _ => rfl⟩, ?_, H.m_queued⟩
  rintro rfl
  rfl

theorem PhaseOk.notified (h : PhaseOk kind none state) (value : α) :
    PhaseOk kind (some value) (notifiedState kind state value) := by
  rw [PhaseOk] at h ⊢
  simp only [notifiedState]
  cases hph : state.phase with
  | idle =>
    rw [hph] at h
    exact { h with m_state := nofun }
  | refused =>
    rw [hph] at h
    exact { h with m_state := nofun }
  | suspended =>
    rw [hph] at h
    exact { h with m_state := nofun, m_queued := fun _ => .inl rfl }
  | completed outcome =>
  rw [hph] at h
  have hval : ∀ value', outcome ≠ .value value' := by
    intro value' houtcome
    cases h.value value' houtcome
  have hdone : outcome ≠ .done := by
    intro houtcome
    cases h.done houtcome
  refine ⟨fun value' houtcome => absurd houtcome (hval value'),
    fun houtcome => absurd houtcome hdone, fun _ => nofun, fun _ => ⟨nofun, ?_⟩, fun _ => nofun,
    h.timer⟩
  rintro ⟨-, hnone, -⟩
  cases hnone

/-- A task that is queued after a notification was accepted is in its wait or behind it. -/
theorem Inv.queue (H : Inv kind accepted state) (hacc : accepted.isSome)
    (hfresh : state.phase ≠ .idle ∧ state.phase ≠ .refused) (hsched : state.scheduler = true)
    (taken : Bool) : Inv kind accepted { state with m_queued := taken } := by
  refine ⟨{ H.core with m_queued := fun _ => hsched }, ?_⟩
  have h := H.phase
  rw [PhaseOk] at h ⊢
  simp only
  cases hph : state.phase with
  | idle => exact absurd hph hfresh.1
  | refused => exact absurd hph hfresh.2
  | suspended =>
    rw [hph] at h
    exact { h with m_queued := fun _ => .inl hacc }
  | completed outcome =>
  rw [hph] at h
  exact { h with }

theorem Inv.notify (H : Inv kind accepted state) (value : α) (taken : Bool) :
    Inv kind (if (state.notify kind value taken).1 then some value else accepted)
      (state.notify kind value taken).2.2 := by
  cases hacc : accepted with
  | some value' =>
    have hnotified : state.m_notified = true := by rw [H.core.m_notified, hacc]; rfl
    rw [notify_again hnotified]
    subst hacc
    exact H
  | none =>
  subst hacc
  have hnotified : state.m_notified = false := H.core.m_notified
  rw [notify_first hnotified]
  have N : Inv kind (some value) (notifiedState kind state value) :=
    ⟨H.core.notified value, H.phase.notified value⟩
  split
  · rename_i hwaiting
    simp only [if_true]
    have hcases := @wakeUp_cases _ (notifiedState kind state value) state.m_waker taken
    rcases hcases with hwake | ⟨-, hsched, hwake⟩
    · rw [hwake]
      exact N
    rw [hwake]
    refine N.queue rfl ⟨?_, ?_⟩ hsched taken
    · intro hidle
      exact (H.phase.fresh (.inl hidle)).m_state hwaiting
    intro hrefused
    exact (H.phase.fresh (.inr hrefused)).m_state hwaiting
  exact N

theorem requestWake_cases (taken : Bool) : ∃ gate queued,
    state.requestWake taken = { state with gate, m_queued := queued } ∧
      (queued = true → state.m_queued = true ∨ state.scheduler = true) := by
  rw [State.requestWake]
  split
  · exact ⟨_, _, rfl, .inl⟩
  · have hcases := @wakeUp_cases _ { state with gate := .kIssued } state.timerWaker taken
    rcases hcases with hwake | ⟨-, hsched, hwake⟩
    · exact ⟨_, _, hwake, .inl⟩
    exact ⟨_, _, hwake, fun _ => .inr hsched⟩
  exact ⟨_, _, rfl, .inl⟩

theorem Inv.fire (H : Inv kind accepted state) (hadded : state.timerAdded = true) (taken : Bool) :
    Inv kind accepted (state.handleTimeout taken) := by
  by_cases hpend : state.completion = .pending
  · simp only [State.handleTimeout, State.completeTimeout, if_pos hpend]
    have hcases := @requestWake_cases _ { state with completion := .timeoutWon } taken
    obtain ⟨gate, queued, hwake, hqueued⟩ := hcases
    rw [hwake]
    refine ⟨{ H.core with m_queued := ?_ }, ?_⟩
    · intro h
      exact (hqueued h).elim H.core.m_queued id
    have h := H.phase
    rw [PhaseOk] at h ⊢
    simp only
    cases hph : state.phase with
    | idle =>
      rw [hph] at h
      rw [h.timerAdded] at hadded
      cases hadded
    | refused =>
      rw [hph] at h
      rw [h.timerAdded] at hadded
      cases hadded
    | suspended =>
      rw [hph] at h
      refine { h with m_queued := fun _ => .inr rfl, untimed := ?_ }
      intro htimed
      rw [(h.untimed htimed).1] at hadded
      cases hadded
    | completed outcome =>
    rw [hph] at h
    exact absurd hpend (h.timer hadded)
  simp only [State.handleTimeout, State.completeTimeout, if_neg hpend]
  exact H

theorem Resumable.of_suspended (H : Core kind accepted state) (S : Suspended accepted state)
    (hqueued : state.m_queued = true) : Resumable accepted { state with m_queued := false } := by
  refine ⟨?_, ?_, ?_, fun _ => S.m_waker, fun htimed => (S.untimed htimed).1⟩
  · intro hmarked
    rw [S.timeoutMarked] at hmarked
    cases hmarked
  · intro hnone
    have htimeouted : state.timeouted = true := by
      rcases S.m_queued hqueued with hsome | htimeouted
      · rw [hnone] at hsome
        cases hsome
      exact htimeouted
    refine ⟨?_, htimeouted⟩
    cases htimed : state.timed with
    | true => rfl
    | false =>
    rw [timeouted_iff, (S.untimed htimed).2] at htimeouted
    cases htimeouted
  intro hnone
  exact ⟨fun _ => H.m_queued hqueued, fun _ => S.m_state hnone⟩

theorem Inv.resume (H : Inv kind accepted state) (hqueued : state.m_queued = true)
    (hph : state.phase = .suspended) :
    Inv kind accepted ({ state with m_queued := false }.resumeWait kind) := by
  apply resumeWait_inv
  · exact { H.core with m_queued := nofun }
  exact .of_suspended H.core (H.phase.suspended hph) hqueued

theorem Inv.dequeue (H : Inv kind accepted state) :
    Inv kind accepted { state with m_queued := false } := by
  refine ⟨{ H.core with m_queued := nofun }, ?_⟩
  have h := H.phase
  rw [PhaseOk] at h ⊢
  simp only
  cases hph : state.phase with
  | idle =>
    rw [hph] at h
    exact { h with m_queued := rfl }
  | refused =>
    rw [hph] at h
    exact { h with m_queued := rfl }
  | suspended =>
    rw [hph] at h
    exact { h with m_queued := nofun }
  | completed outcome =>
  rw [hph] at h
  exact { h with }

theorem Inv.call (H : Inv kind accepted state) {call : Call α} {next : State α}
    (h : state.call kind call = some next) (hnotify : ∀ value taken, call ≠ .notify value taken) :
    Inv kind accepted next := by
  cases call with
  | wait timed =>
    simp only [State.call] at h
    split at h
    · rename_i hph
      cases h
      exact H.wait hph timed
    cases h
  | suspend timerAdded =>
    simp only [State.call] at h
    split at h
    · rename_i hph
      cases h
      have F := H.phase.fresh (.inr hph)
      cases htimed : state.timed with
      | true => exact Inv.suspend_timed H.core F htimed timerAdded
      | false => exact Inv.suspend_untimed H.core F htimed timerAdded
    cases h
  | notify value taken => exact absurd rfl (hnotify value taken)
  | fire taken =>
    simp only [State.call] at h
    split at h
    · rename_i hadded
      cases h
      exact H.fire hadded taken
    cases h
  | resume =>
    simp only [State.call] at h
    split at h
    · rename_i hqueued
      split at h
      · rename_i hph
        cases h
        exact H.resume hqueued hph
      cases h
      exact H.dequeue
    cases h
  | finish =>
  simp only [State.call] at h
  split at h
  · rename_i outcome hph
    cases h
    have h := H.phase.completed hph
    refine ⟨{ H.core with }, ?_⟩
    rw [PhaseOk]
    simp only [hph]
    exact { h with }
  cases h

end

end Galay.Kernel.AsyncWaiter
