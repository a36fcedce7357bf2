import Galay.Kernel.WorkerConservation

/-!
# The ready pass (`galay-kernel/core/scheduler_core.h`)

`SchedulerCore::runReadyPassDetailed` without other producers: what a resumed entry does to the
worker is that it may schedule itself again, once. A pass is a loop; it is run with fuel, and has an
answer when it returns.
-/

namespace Galay.Kernel

variable {α : Type*}

structure SchedulerReadyPassSummary where
  ran : Nat := 0
  drainedRemote : Nat := 0
  passes : Nat := 0
  deriving DecidableEq, Repr

/-- How an entry schedules itself again: `co_yield true` defers. -/
inductive Requeue
  | scheduleLocal
  | scheduleLocalDeferred
  deriving DecidableEq, Repr

/-- What the resumed entries do, by the number of resumes before and the entry. -/
abbrev Behaviour (α : Type*) := Nat → α → Option Requeue

namespace IOSchedulerWorkerState

def requeue (worker : IOSchedulerWorkerState α) (task : α) :
    Option Requeue → IOSchedulerWorkerState α
  | none => worker
  | some .scheduleLocal => worker.scheduleLocal (some task)
  | some .scheduleLocalDeferred => worker.scheduleLocalDeferred (some task)

end IOSchedulerWorkerState

namespace SchedulerCore

open IOSchedulerWorkerState

variable (dequeue : BulkDequeue α) (behaviour : Behaviour α) (readyBudget : Nat)
  (allowInjectedBurst : Bool)

def collectRemote (worker : IOSchedulerWorkerState α) : Nat × IOSchedulerWorkerState α :=
  if !worker.hasLocalWork || worker.shouldCheckInjected || worker.hasPendingInjected then
    worker.drainInjected dequeue
  else (0, worker)

/-- The worker and the local variables of a pass. -/
structure PassState (α : Type*) where
  worker : IOSchedulerWorkerState α
  burstCredit : Nat := 0
  summary : SchedulerReadyPassSummary := {}

/-- What one turn of the loop ends with. -/
inductive Turn (α : Type*)
  | again (state : PassState α)
  | leave (state : PassState α)

variable (state : PassState α)

/-- A drain is counted, and earns credit in a burst. -/
def PassState.drained (result : Nat × IOSchedulerWorkerState α) :
    PassState α where
  worker := result.2
  burstCredit := if allowInjectedBurst then state.burstCredit + result.1 else state.burstCredit
  summary := { state.summary with drainedRemote := state.summary.drainedRemote + result.1 }

/-- The state after an entry has been resumed. -/
def resumed (task : α) (worker : IOSchedulerWorkerState α) : PassState α where
  worker := worker.requeue task (behaviour state.summary.ran task)
  burstCredit :=
    if allowInjectedBurst = true ∧ 0 < state.burstCredit then state.burstCredit - 1
    else state.burstCredit
  summary := { state.summary with ran := state.summary.ran + 1 }

/-- The resume of an entry and the check of the budget behind it. -/
def resume (task : α) (worker : IOSchedulerWorkerState α) : Turn α :=
  let state := resumed behaviour allowInjectedBurst state task worker
  if readyBudget ≤ state.summary.ran ∧ (allowInjectedBurst = false ∨ state.burstCredit = 0) then
    .leave state
  else .again state

def turn : Turn α :=
  let state := state.drained allowInjectedBurst (collectRemote dequeue state.worker)
  match state.worker.popNext with
  | (some task, worker) =>
    resume behaviour readyBudget allowInjectedBurst state task worker
  | (none, worker) =>
    if worker.hasPendingInjected then .again { state with worker }
    else
      let result := worker.drainInjected dequeue
      let state := state.drained allowInjectedBurst result
      if result.1 = 0 then .leave state
      else
        match state.worker.popNext with
        | (some task, worker) =>
          resume behaviour readyBudget allowInjectedBurst state task worker
        | (none, worker) => .leave { state with worker }

def loop : (fuel : Nat) → PassState α → Option (PassState α)
  | 0, _ => none
  | fuel + 1, state =>
    match turn dequeue behaviour readyBudget allowInjectedBurst state with
    | .again state => loop fuel state
    | .leave state => some { state with summary := { state.summary with passes := 1 } }

/-- The summary of the pass and the worker after it, if the fuel is enough. -/
def runReadyPassDetailed (fuel : Nat) (worker : IOSchedulerWorkerState α) :
    Option (SchedulerReadyPassSummary × IOSchedulerWorkerState α) :=
  (loop dequeue behaviour (max 1 readyBudget) (!worker.hasLocalWork) fuel { worker }).map
    fun state => (state.summary, state.worker)

/-- The pass returns after at most `n` resumes. -/
def ReturnsWithin (worker : IOSchedulerWorkerState α) (n : Nat) : Prop :=
  ∃ fuel summary worker',
    runReadyPassDetailed dequeue behaviour readyBudget fuel worker = some (summary, worker') ∧
      summary.ran ≤ n

end SchedulerCore

end Galay.Kernel

/-!
# When a ready pass ends

The budget bounds a pass as long as no drain of the pass earns more credit than a resume spends.
Where the first drains earn two, entries that defer themselves keep the credit up, and the pass does
not end.
-/

namespace Galay.Kernel

variable {α : Type*}

namespace IOSchedulerWorkerState

variable {worker worker' : IOSchedulerWorkerState α} {taken batch : List α}

variable (worker)

/-- The entries that have not been moved to the ring. -/
def outstanding : Nat :=
  worker.readyInjectQueue.length + worker.readyResumeQueue.chain.length +
    worker.readyResumeLocal.length

/-- A drain moves one entry at most. -/
def Slow : Prop :=
  worker.held.length ≤ 1 ∨
    worker.hasPendingResume = false ∧ worker.readyInjectBufferSize = 1

variable {worker}

theorem hasLocalWork_eq_false : worker.hasLocalWork = false ↔
    worker.readyLifoSlot = none ∧ worker.localRing.contents = [] := by
  unfold hasLocalWork
  rw [ChaseLevTaskRing.empty_eq]
  cases worker.readyLifoSlot <;> simp

theorem hasPendingResume_eq_false : worker.hasPendingResume = false ↔
    worker.readyResumeLocal = [] ∧ worker.readyResumeQueue.chain = [] := by
  simp [hasPendingResume]

theorem Counted.hasPendingInjected (h : worker.Counted) :
    worker.hasPendingInjected = decide (0 < worker.outstanding) := by
  unfold Counted at h
  rw [IOSchedulerWorkerState.hasPendingInjected, outstanding, h]

theorem length_held : worker.held.length =
    worker.readyLifoSlot.toList.length + worker.localRing.contents.length +
      worker.outstanding := by
  simp only [held, outstanding, List.length_append]
  omega

section

variable (h : worker.Drained taken batch worker')
include h

theorem Drained.length_held :
    worker'.held.length = worker.held.length := by
  classical
  exact (List.perm_iff_count.2 fun a => h.count a).length_eq

theorem Drained.length_outstanding :
    taken.length + batch.length + worker'.outstanding = worker.outstanding := by
  have hinject := h.inject.length_eq
  have hresume := congrArg List.length h.resume
  simp only [List.length_append, List.length_reverse] at hinject hresume
  unfold IOSchedulerWorkerState.outstanding
  omega

theorem Drained.length_ring :
    worker'.localRing.contents.length =
      worker.localRing.contents.length + taken.length + batch.length := by
  rw [h.ring, List.length_append, List.length_append, List.length_reverse, List.length_reverse]

/-- Where there is room, a drain moves something if there is something. -/
theorem Drained.pos (hroom : worker.localRing.contents.length < 256)
    (hpend : 0 < worker.outstanding) :
    0 < taken.length + batch.length := by
  have htaken := h.taken_length
  have hbatch := h.batch_length
  have hbuffer := worker.readyInjectBufferSize_pos
  have htarget : worker.hasPendingResume = false →
      worker.drainTarget (256 - worker.localRing.contents.length) =
        min (256 - worker.localRing.contents.length) worker.readyInjectBufferSize := by
    intro hresume
    unfold drainTarget
    rw [if_neg (by rw [hresume]; exact nofun)]
  unfold IOSchedulerWorkerState.outstanding at hpend
  cases hresume : worker.hasPendingResume with
  | false =>
    rw [htarget hresume] at htaken
    obtain ⟨hlocal, hchain⟩ := hasPendingResume_eq_false.1 hresume
    rw [hlocal, hchain, List.length_nil] at hpend
    omega
  | true =>
  have hsome : ¬ (worker.readyResumeLocal = [] ∧ worker.readyResumeQueue.chain = []) := by
    rw [← hasPendingResume_eq_false, hresume]
    exact nofun
  by_cases hlocal : worker.readyResumeLocal = []
  · rw [if_pos hlocal] at hbatch
    have hchain := List.length_pos_iff.2 fun hnil => hsome ⟨hlocal, hnil⟩
    omega
  rw [if_neg hlocal] at hbatch
  have hpos := List.length_pos_iff.2 hlocal
  omega

end

theorem Slow.drained_le (h : worker.Slow) (hdrained : worker.Drained taken batch worker') :
    taken.length + batch.length ≤ 1 := by
  rcases h with hone | ⟨hresume, hbuffer⟩
  · have hlen := hdrained.length_outstanding
    rw [IOSchedulerWorkerState.length_held] at hone
    omega
  have htaken := hdrained.taken_length
  have hbatch := hdrained.batch_length
  have htarget : worker.drainTarget (256 - worker.localRing.contents.length) ≤
      worker.readyInjectBufferSize := Nat.min_le_right ..
  obtain ⟨hlocal, hchain⟩ := hasPendingResume_eq_false.1 hresume
  rw [if_pos hlocal, hchain, List.length_nil] at hbatch
  omega

theorem Slow.drained (h : worker.Slow) (hdrained : worker.Drained taken batch worker') :
    worker'.Slow := by
  rcases h with hone | ⟨hresume, hbuffer⟩
  · exact .inl (hdrained.length_held ▸ hone)
  obtain ⟨hlocal, hchain⟩ := hasPendingResume_eq_false.1 hresume
  have hnone := hdrained.resume
  rw [hlocal, hchain, List.reverse_nil, List.append_nil, List.append_eq_nil_iff,
    List.append_eq_nil_iff, List.reverse_eq_nil_iff] at hnone
  exact .inr ⟨hasPendingResume_eq_false.2 ⟨hnone.1.2, hnone.2⟩, hdrained.buffer ▸ hbuffer⟩

/-! ## The other calls leave the tasks to resume alone -/

/-- The tasks to resume and the size of the buffer are the same. -/
structure SameResume (worker worker' : IOSchedulerWorkerState α) : Prop where
  local_eq : worker'.readyResumeLocal = worker.readyResumeLocal
  chain_eq : worker'.readyResumeQueue.chain = worker.readyResumeQueue.chain
  buffer_eq : worker'.readyInjectBufferSize = worker.readyInjectBufferSize

theorem SameResume.trans (h : SameResume worker worker')
    (h' : SameResume worker' worker'') : SameResume worker worker'' :=
  ⟨h'.local_eq.trans h.local_eq, h'.chain_eq.trans h.chain_eq, h'.buffer_eq.trans h.buffer_eq⟩

theorem SameResume.slow (h : SameResume worker worker')
    (hheld : worker'.held.length ≤ worker.held.length) (hslow : worker.Slow) : worker'.Slow := by
  rcases hslow with hone | ⟨hresume, hbuffer⟩
  · exact .inl (Nat.le_trans hheld hone)
  obtain ⟨hlocal, hchain⟩ := hasPendingResume_eq_false.1 hresume
  exact .inr ⟨hasPendingResume_eq_false.2 ⟨h.local_eq.trans hlocal, h.chain_eq.trans hchain⟩,
    h.buffer_eq.trans hbuffer⟩

variable (worker)

theorem sameResume_enqueueDeferred (task : α) :
    SameResume worker (worker.enqueueDeferred task) := by
  rcases worker.enqueueDeferred_cases task with ⟨ring, heq, -⟩ | ⟨heq, -⟩
  · rw [heq]
    exact ⟨rfl, rfl, rfl⟩
  rw [heq]
  exact ⟨rfl, rfl, rfl⟩

theorem sameResume_prepareForRun :
    SameResume worker worker.prepareForRun := by
  unfold prepareForRun
  split
  · next deferred hslot =>
    have hsame := sameResume_enqueueDeferred worker deferred
    split
    · exact { hsame with }
    exact ⟨rfl, rfl, rfl⟩
  exact ⟨rfl, rfl, rfl⟩

theorem sameResume_popNext :
    SameResume worker worker.popNext.2 := by
  have hsame := sameResume_prepareForRun worker
  unfold popNext
  simp only
  split
  · exact { hsame with }
  split
  · exact { hsame with }
  exact hsame

theorem sameResume_requeue (task : α)
    (again : Option Requeue) : SameResume worker (worker.requeue task again) := by
  cases again with
  | none => exact ⟨rfl, rfl, rfl⟩
  | some how =>
  cases how with
  | scheduleLocalDeferred => exact ⟨rfl, rfl, rfl⟩
  | scheduleLocal =>
  unfold requeue scheduleLocal
  simp only
  split
  · split
    · next deferred hslot =>
      have hsame := sameResume_enqueueDeferred worker deferred
      exact { hsame with }
    exact ⟨rfl, rfl, rfl⟩
  exact sameResume_enqueueDeferred worker task

variable {worker}

theorem length_popNext (h : worker.popNext.1 = some task) :
    worker.popNext.2.held.length + 1 = worker.held.length := by
  classical
  rcases worker.popNext_cases with ⟨task', -, hmoved⟩ | ⟨hnone, -⟩
  · have hperm : (worker.popNext.2.held ++ [task']).Perm worker.held := by
      refine List.perm_iff_count.2 fun a => ?_
      rw [List.count_append]
      exact hmoved a
    have hlen := hperm.length_eq
    rw [List.length_append, List.length_singleton] at hlen
    exact hlen
  rw [hnone] at h
  cases h

theorem length_requeue (worker : IOSchedulerWorkerState α) (task : α) (again : Option Requeue) :
    (worker.requeue task again).held.length ≤ worker.held.length + 1 := by
  classical
  cases again with
  | none => exact Nat.le_succ _
  | some how =>
  have hperm : (worker.requeue task (some how)).held.Perm (worker.held ++ [task]) := by
    refine List.perm_iff_count.2 fun a => ?_
    rw [List.count_append]
    cases how with
    | scheduleLocal => exact count_scheduleLocal a (some task)
    | scheduleLocalDeferred => exact count_fallbackToInject a task
  have hlen := hperm.length_eq
  rw [List.length_append, List.length_singleton] at hlen
  exact Nat.le_of_eq hlen

theorem counted_requeue (h : worker.Counted) (task : α) (again : Option Requeue) :
    (worker.requeue task again).Counted := by
  classical
  cases again with
  | none => exact h
  | some how =>
  cases how with
  | scheduleLocal => exact counted_scheduleLocal h (some task)
  | scheduleLocalDeferred => exact counted_fallbackToInject h task

theorem popNext_eq_none (h : worker.popNext.1 = none) : worker.hasLocalWork = false := by
  rw [hasLocalWork_eq_false]
  unfold popNext at h
  simp only at h
  split at h
  · cases h
  next hslot =>
  rcases worker.prepareForRun.localRing.pop_back_cases with ⟨hpop, hring⟩ | ⟨task, ring, hpop, -⟩
  · -- An entry of the slot is in the ring now, or the ring is full.
    unfold prepareForRun at hslot hring
    cases hlifo : worker.readyLifoSlot with
    | none =>
      simp only [hlifo] at hring
      exact ⟨rfl, hring⟩
    | some deferred =>
    simp only [hlifo] at hslot hring
    split at hring
    · rcases worker.enqueueDeferred_cases deferred with ⟨ring, heq, hpushed⟩ | ⟨heq, hfull⟩
      · rw [heq] at hring
        simp only [hpushed, List.append_eq_nil_iff] at hring
        cases hring.2
      rw [heq] at hring
      have hnil : worker.localRing.contents = [] := hring
      rw [hnil] at hfull
      cases hfull
    next hkeep =>
    rw [if_neg hkeep, hlifo] at hslot
    cases hslot
  rw [hpop] at h
  cases h

theorem popNext_of_none (h : worker.popNext.1 = none) : worker.popNext = (none, worker) := by
  obtain ⟨hslot, hring⟩ := hasLocalWork_eq_false.1 (popNext_eq_none h)
  have hready : worker.prepareForRun = worker := by
    unfold prepareForRun
    rw [hslot]
  unfold popNext
  simp only [hready, hslot]
  rcases worker.localRing.pop_back_cases with ⟨hpop, -⟩ | ⟨task, ring, -, hcont⟩
  · rw [hpop]
  rw [hring] at hcont
  cases List.append_eq_nil_iff.1 hcont.symm |>.2

end IOSchedulerWorkerState

namespace SchedulerCore

open IOSchedulerWorkerState

variable {dequeue : BulkDequeue α} {behaviour : Behaviour α} {readyBudget : Nat}
  {allowInjectedBurst : Bool} {state : PassState α}

/-! ## One turn -/

/-- A drain of the remote entries, or nothing where it is not due. -/
theorem collectRemote_cases (dequeue : BulkDequeue α) (worker : IOSchedulerWorkerState α)
    (hcounted : worker.Counted) :
    (∃ taken batch, worker.Drained taken batch (collectRemote dequeue worker).2 ∧
      (collectRemote dequeue worker).1 = taken.length + batch.length) ∨
    collectRemote dequeue worker = (0, worker) ∧ worker.hasLocalWork = true ∧
      worker.outstanding = 0 := by
  unfold collectRemote
  cases hdue : !worker.hasLocalWork || worker.shouldCheckInjected || worker.hasPendingInjected with
  | true =>
    rw [if_pos rfl]
    exact .inl (worker.drainInjected_spec dequeue)
  | false =>
  rw [if_neg nofun]
  simp only [Bool.or_eq_false_iff, Bool.not_eq_false'] at hdue
  obtain ⟨⟨hlocal, -⟩, hpend⟩ := hdue
  rw [hcounted.hasPendingInjected, decide_eq_false_iff_not] at hpend
  exact .inr ⟨rfl, hlocal, by omega⟩

variable (dequeue) in
/-- Where a pop fails after the drain there is nothing outstanding. -/
theorem outstanding_of_popNext (hcounted : worker.Counted)
    (hnone : (collectRemote dequeue worker).2.popNext.1 = none) :
    (collectRemote dequeue worker).2.outstanding = 0 := by
  have hidle := popNext_eq_none hnone
  rcases collectRemote_cases dequeue worker hcounted with
    ⟨taken, batch, hdrained, -⟩ | ⟨heq, hlocal, -⟩
  · obtain ⟨-, hring⟩ := hasLocalWork_eq_false.1 hidle
    have hlen := hdrained.length_ring
    have hmoved := hdrained.length_outstanding
    rw [hring, List.length_nil] at hlen
    by_contra hpend
    have hpos := hdrained.pos (by omega) (by omega)
    omega
  rw [heq, hlocal] at hidle
  cases hidle

variable (behaviour readyBudget allowInjectedBurst) in
theorem turn_of_popNext (h : (collectRemote dequeue state.worker).2.popNext = (some task, worker)) :
    turn dequeue behaviour readyBudget allowInjectedBurst state =
      resume behaviour readyBudget allowInjectedBurst
        (state.drained allowInjectedBurst (collectRemote dequeue state.worker)) task worker := by
  unfold turn
  simp only [PassState.drained, h]

/-- A turn resumes an entry, or the pass ends without one. -/
theorem turn_cases (hcounted : state.worker.Counted) :
    (∃ task, (collectRemote dequeue state.worker).2.popNext.1 = some task ∧
      turn dequeue behaviour readyBudget allowInjectedBurst state =
        resume behaviour readyBudget allowInjectedBurst
          (state.drained allowInjectedBurst (collectRemote dequeue state.worker)) task
          (collectRemote dequeue state.worker).2.popNext.2) ∨
    ∃ final, turn dequeue behaviour readyBudget allowInjectedBurst state = .leave final ∧
      final.summary.ran = state.summary.ran := by
  have hnothing := outstanding_of_popNext dequeue hcounted
  have hkept : (collectRemote dequeue state.worker).2.Counted := by
    rcases collectRemote_cases dequeue state.worker hcounted with
      ⟨taken, batch, hdrained, -⟩ | ⟨heq, -, -⟩
    · exact hdrained.counted hcounted
    rw [heq]
    exact hcounted
  cases hpop : (collectRemote dequeue state.worker).2.popNext.1 with
  | some task => exact .inl ⟨task, rfl, turn_of_popNext _ _ _ (Prod.ext hpop rfl)⟩
  | none =>
  unfold turn
  simp only [PassState.drained]
  revert hnothing hkept hpop
  generalize collectRemote dequeue state.worker = collected
  intro hnothing hkept hpop
  have hzero := hnothing hpop
  have hidle : collected.2.hasPendingInjected = false := by
    rw [hkept.hasPendingInjected, hzero]
    rfl
  obtain ⟨taken, batch, hdrained, hcount⟩ := collected.2.drainInjected_spec dequeue
  have hmoved := hdrained.length_outstanding
  have hdry : (collected.2.drainInjected dequeue).1 = 0 := by omega
  right
  rw [popNext_of_none hpop]
  simp only [hidle, Bool.false_eq_true, if_false, hdry, if_true]
  exact ⟨_, rfl, rfl⟩

theorem loop_again (h : turn dequeue behaviour readyBudget allowInjectedBurst state = .again next) :
    loop dequeue behaviour readyBudget allowInjectedBurst (fuel + 1) state =
      loop dequeue behaviour readyBudget allowInjectedBurst fuel next := by
  simp only [loop, h]

theorem loop_leave
    (h : turn dequeue behaviour readyBudget allowInjectedBurst state = .leave final) :
    loop dequeue behaviour readyBudget allowInjectedBurst (fuel + 1) state =
      some { final with summary := { final.summary with passes := 1 } } := by
  simp only [loop, h]

/-! ## Passes that end -/

/-- The budget has not been reached and no credit is left over. -/
structure Paced (readyBudget : Nat) (allowInjectedBurst : Bool) (state : PassState α) : Prop where
  counted : state.worker.Counted
  ran_lt : state.summary.ran < readyBudget
  slow : allowInjectedBurst = true → state.burstCredit = 0 ∧ state.worker.Slow

variable (dequeue behaviour) in
theorem Paced.turn (h : Paced readyBudget allowInjectedBurst state) :
    (∃ next, SchedulerCore.turn dequeue behaviour readyBudget allowInjectedBurst state =
      .again next ∧ Paced readyBudget allowInjectedBurst next ∧
        next.summary.ran = state.summary.ran + 1) ∨
    ∃ final, SchedulerCore.turn dequeue behaviour readyBudget allowInjectedBurst state =
      .leave final ∧ final.summary.ran ≤ readyBudget := by
  rcases turn_cases h.counted with ⟨task, hpop, hturn⟩ | ⟨final, hturn, hran⟩
  case inr => exact .inr ⟨final, hturn, by have hlt := h.ran_lt; omega⟩
  rw [hturn]
  have hcollected : (collectRemote dequeue state.worker).2.Counted ∧
      (state.worker.Slow → (collectRemote dequeue state.worker).1 ≤ 1 ∧
        (collectRemote dequeue state.worker).2.Slow) := by
    rcases collectRemote_cases dequeue state.worker h.counted with
      ⟨taken, batch, hdrained, hcount⟩ | ⟨heq, -, -⟩
    · exact ⟨hdrained.counted h.counted, fun hslow =>
        ⟨hcount ▸ hslow.drained_le hdrained, hslow.drained hdrained⟩⟩
    rw [heq]
    exact ⟨h.counted, fun hslow => ⟨Nat.zero_le 1, hslow⟩⟩
  obtain ⟨hcounted, hslow⟩ := hcollected
  have hlen := length_popNext hpop
  have hpopped := sameResume_popNext (collectRemote dequeue state.worker).2
  have hrequeued := sameResume_requeue (collectRemote dequeue state.worker).2.popNext.2 task
    (behaviour state.summary.ran task)
  have hheld := length_requeue (collectRemote dequeue state.worker).2.popNext.2 task
    (behaviour state.summary.ran task)
  have hkept := counted_requeue (counted_popNext hcounted) task (behaviour state.summary.ran task)
  have hlt := h.ran_lt
  unfold resume
  simp only
  generalize hnext : resumed behaviour allowInjectedBurst
    (state.drained allowInjectedBurst (collectRemote dequeue state.worker)) task
    (collectRemote dequeue state.worker).2.popNext.2 = next
  have hran : next.summary.ran = state.summary.ran + 1 := by
    rw [← hnext]
    rfl
  have hworker : next.worker = (collectRemote dequeue state.worker).2.popNext.2.requeue task
      (behaviour state.summary.ran task) := by
    rw [← hnext]
    rfl
  -- What the drain earns is spent by this resume.
  have hpaced : allowInjectedBurst = true → next.burstCredit = 0 ∧ next.worker.Slow := by
    intro hburst
    obtain ⟨hcredit, hstart⟩ := h.slow hburst
    obtain ⟨hone, hafter⟩ := hslow hstart
    refine ⟨?_, hworker ▸ (hpopped.trans hrequeued).slow (by omega) hafter⟩
    rw [← hnext, hburst]
    simp only [resumed, PassState.drained, if_true, true_and, hcredit]
    split <;> omega
  by_cases hdone : readyBudget ≤ next.summary.ran ∧
      (allowInjectedBurst = false ∨ next.burstCredit = 0)
  · rw [if_pos hdone]
    exact .inr ⟨next, rfl, by omega⟩
  rw [if_neg hdone]
  refine .inl ⟨next, rfl, ⟨hworker ▸ hkept, ?_, hpaced⟩, hran⟩
  refine Nat.lt_of_not_le fun hle => hdone ⟨hle, ?_⟩
  cases hburst : allowInjectedBurst with
  | false => exact .inl rfl
  | true => exact .inr (hpaced hburst).1

theorem Paced.loop (h : Paced readyBudget allowInjectedBurst state) :
    ∃ fuel final, SchedulerCore.loop dequeue behaviour readyBudget allowInjectedBurst fuel state =
      some final ∧ final.summary.ran ≤ readyBudget := by
  induction hleft : readyBudget - state.summary.ran generalizing state with
  | zero =>
    have hlt := h.ran_lt
    omega
  | succ left ih =>
  rcases h.turn dequeue behaviour with
    ⟨next, hturn, hnext, hran⟩ | ⟨final, hturn, hran⟩
  · obtain ⟨fuel, final, hloop, hbound⟩ := ih hnext (by omega)
    exact ⟨fuel + 1, final, (loop_again hturn).trans hloop, hbound⟩
  exact ⟨1, _, loop_leave hturn, hran⟩

/-! ## Passes that do not end -/

/-- Every entry defers itself. -/
def deferring : Behaviour α := fun _ _ => some .scheduleLocalDeferred

/-- Credit is left over and an entry is waiting to earn more. -/
structure Busy (state : PassState α) : Prop where
  counted : state.worker.Counted
  slot : state.worker.readyLifoSlot = none
  ring : state.worker.localRing.contents.length < 256
  pending : 0 < state.worker.outstanding
  credit : 0 < state.burstCredit

variable (dequeue) in
theorem collectRemote_of_pending (hcounted : worker.Counted) (hpend : 0 < worker.outstanding) :
    collectRemote dequeue worker = worker.drainInjected dequeue := by
  unfold collectRemote
  rw [hcounted.hasPendingInjected, decide_eq_true hpend, Bool.or_true, if_pos rfl]

theorem popNext_of_slot {worker : IOSchedulerWorkerState α} (hslot : worker.readyLifoSlot = none)
    (hring : worker.localRing.contents ≠ []) :
    ∃ task popped, worker.popNext = (some task, popped) ∧ popped.readyLifoSlot = none ∧
      popped.readyInjectQueue = worker.readyInjectQueue ∧
      popped.localRing.contents.length + 1 = worker.localRing.contents.length := by
  have hready : worker.prepareForRun = worker := by
    unfold prepareForRun
    rw [hslot]
  rcases worker.localRing.pop_back_cases with ⟨-, hnil⟩ | ⟨task, ring, hpop, hcont⟩
  · exact absurd hnil hring
  refine ⟨task, { worker with
      localRing := ring
      lifoEnabled := true
      consecutiveLifoPolls := 0
      pollsSinceInject := worker.pollsSinceInject + 1 }, ?_, hslot, rfl, ?_⟩
  · unfold popNext
    simp only [hready, hslot, hpop]
  rw [hcont, List.length_append, List.length_singleton]

variable (readyBudget) in
theorem turn_deferring {taken batch : List α} (hcounted : state.worker.Counted)
    (hslot : state.worker.readyLifoSlot = none) (hpend : 0 < state.worker.outstanding)
    (hdrained : state.worker.Drained taken batch (state.worker.drainInjected dequeue).2)
    (hcount : (state.worker.drainInjected dequeue).1 = taken.length + batch.length)
    (hmoved : 0 < taken.length + batch.length) :
    ∃ next : PassState α, next.worker.Counted ∧ next.worker.readyLifoSlot = none ∧
      next.worker.localRing.contents.length + 1 =
        state.worker.localRing.contents.length + taken.length + batch.length ∧
      (∃ task, next.worker.readyInjectQueue =
        (state.worker.drainInjected dequeue).2.readyInjectQueue ++ [task]) ∧
      SameResume (state.worker.drainInjected dequeue).2 next.worker ∧
      next.burstCredit + 1 = state.burstCredit + taken.length + batch.length ∧
      next.summary.ran = state.summary.ran + 1 ∧
      turn dequeue deferring readyBudget true state =
        if readyBudget ≤ next.summary.ran ∧ next.burstCredit = 0 then .leave next
        else .again next := by
  have hcollect := collectRemote_of_pending dequeue hcounted hpend
  have hlen := hdrained.length_ring
  have hring : (state.worker.drainInjected dequeue).2.localRing.contents ≠ [] := by
    intro hnil
    rw [hnil, List.length_nil] at hlen
    omega
  obtain ⟨task, popped, hpop, hempty, hinject, hshort⟩ :=
    popNext_of_slot (hdrained.slot.trans hslot) hring
  have hkept := counted_popNext (hdrained.counted hcounted)
  have hsame := sameResume_popNext (state.worker.drainInjected dequeue).2
  rw [hpop] at hkept hsame
  have hcredit : 0 < state.burstCredit + (state.worker.drainInjected dequeue).1 := by omega
  have hturn := turn_of_popNext deferring readyBudget true
    (hcollect.symm ▸ hpop)
  refine ⟨resumed deferring true (state.drained true (state.worker.drainInjected dequeue)) task
    popped, counted_requeue hkept task (some .scheduleLocalDeferred), hempty, ?_,
    ⟨task, congrArg (· ++ [task]) hinject⟩,
    hsame.trans (sameResume_requeue popped task (some .scheduleLocalDeferred)), ?_, rfl, ?_⟩
  · exact hshort.trans hlen
  · simp only [resumed, PassState.drained, if_true, true_and, if_pos hcredit]
    omega
  rw [hturn, hcollect]
  unfold resume
  simp only [Bool.true_eq_false, false_or]

theorem outstanding_pos_of_inject {worker : IOSchedulerWorkerState α}
    (h : worker.readyInjectQueue = rest ++ [task]) : 0 < worker.outstanding := by
  unfold outstanding
  rw [h, List.length_append, List.length_singleton]
  omega

variable (readyBudget) in
theorem busy_of_drained {taken batch : List α} (hcounted : state.worker.Counted)
    (hslot : state.worker.readyLifoSlot = none) (hpend : 0 < state.worker.outstanding)
    (hdrained : state.worker.Drained taken batch (state.worker.drainInjected dequeue).2)
    (hcount : (state.worker.drainInjected dequeue).1 = taken.length + batch.length)
    (hmoved : 0 < taken.length + batch.length)
    (hcredit : 2 ≤ state.burstCredit + taken.length + batch.length) :
    ∃ next, turn dequeue deferring readyBudget true state = .again next ∧ Busy next := by
  obtain ⟨next, hkept, hempty, hring, ⟨task, hinject⟩, -, hleft, -, hturn⟩ :=
    turn_deferring readyBudget hcounted hslot hpend hdrained hcount hmoved
  have hfull := (state.worker.drainInjected dequeue).2.localRing.length_contents_le
  rw [hdrained.length_ring] at hfull
  refine ⟨next, ?_, hkept, hempty, by omega, outstanding_pos_of_inject hinject, by omega⟩
  rw [hturn, if_neg (by omega)]

variable (dequeue readyBudget) in
theorem Busy.turn (h : Busy state) :
    ∃ next, SchedulerCore.turn dequeue deferring readyBudget true state = .again next ∧
      Busy next := by
  obtain ⟨taken, batch, hdrained, hcount⟩ := state.worker.drainInjected_spec dequeue
  have hmoved := hdrained.pos h.ring h.pending
  have hcredit := h.credit
  exact busy_of_drained readyBudget h.counted h.slot h.pending hdrained hcount hmoved (by omega)

theorem Busy.loop (h : Busy state) (fuel : Nat) :
    SchedulerCore.loop dequeue deferring readyBudget true fuel state = none := by
  induction fuel generalizing state with
  | zero => rfl
  | succ fuel ih =>
  obtain ⟨next, hturn, hnext⟩ := h.turn dequeue readyBudget
  rw [loop_again hturn]
  exact ih hnext

/-- A drain into an empty ring moves two entries at least, but for a single local task to resume. -/
theorem two_le_drained {worker : IOSchedulerWorkerState α}
    (hdrained : worker.Drained taken batch worker') (hring : worker.localRing.contents = [])
    (hmany : 2 ≤ worker.outstanding)
    (hfast : worker.hasPendingResume = true ∨ 2 ≤ worker.readyInjectBufferSize)
    (hlocal : ¬ (worker.readyInjectQueue = [] ∧ worker.readyResumeLocal.length = 1)) :
    2 ≤ taken.length + batch.length := by
  have htaken := hdrained.taken_length
  have hbatch := hdrained.batch_length
  have hbuffer := worker.readyInjectBufferSize_pos
  rw [hring, List.length_nil, Nat.sub_zero] at htaken hbatch
  rw [← List.length_eq_zero_iff] at hlocal
  unfold outstanding at hmany
  cases hresume : worker.hasPendingResume with
  | false =>
    obtain ⟨hnone, hchain⟩ := hasPendingResume_eq_false.1 hresume
    have htarget : worker.drainTarget 256 = min 256 worker.readyInjectBufferSize := by
      unfold drainTarget
      rw [if_neg (by rw [hresume]; exact nofun)]
    rw [hnone, hchain, List.length_nil] at hmany
    rw [hresume] at hfast
    rcases hfast with hfast | hfast
    · cases hfast
    omega
  | true =>
  have htarget : worker.drainTarget 256 = min 255 worker.readyInjectBufferSize := by
    unfold drainTarget
    rw [if_pos hresume]
    rfl
  have hsome : ¬ (worker.readyResumeLocal = [] ∧ worker.readyResumeQueue.chain = []) := by
    rw [← hasPendingResume_eq_false, hresume]
    exact nofun
  rw [← List.length_eq_zero_iff, ← List.length_eq_zero_iff] at hsome
  by_cases hnone : worker.readyResumeLocal = []
  · rw [if_pos hnone] at hbatch
    rw [hnone, List.length_nil] at hmany hsome
    omega
  rw [if_neg hnone] at hbatch
  have hpos := List.length_pos_iff.2 hnone
  omega

/-! ## Exactly when a pass ends -/

/-- There is local work at the start, or the first drains move one entry at most. -/
def Bounded (worker : IOSchedulerWorkerState α) (readyBudget : Nat) : Prop :=
  worker.hasLocalWork = true ∨ worker.Slow ∨
    readyBudget = 1 ∧ worker.readyInjectQueue = [] ∧ worker.readyResumeLocal.length = 1

variable (dequeue behaviour) in
/-- The only resume that a budget of one allows, after a drain of one entry. -/
theorem turn_last (hcounted : worker.Counted)
    (hinject : worker.readyInjectQueue = []) (hlocal : worker.readyResumeLocal.length = 1) :
    ∃ final, turn dequeue behaviour 1 allowInjectedBurst { worker } = .leave final ∧
      final.summary.ran ≤ 1 := by
  have hone : (collectRemote dequeue worker).1 ≤ 1 := by
    rcases collectRemote_cases dequeue worker hcounted with
      ⟨taken, batch, hdrained, hcount⟩ | ⟨heq, -, -⟩
    · have htaken := hdrained.taken_length
      have hbatch := hdrained.batch_length
      rw [hinject, List.length_nil] at htaken
      rw [if_neg (by intro hnil; rw [hnil] at hlocal; cases hlocal)] at hbatch
      omega
    rw [heq]
    exact Nat.zero_le 1
  rcases @turn_cases _ dequeue behaviour 1 allowInjectedBurst { worker } hcounted with
    ⟨task, -, hturn⟩ | ⟨final, hturn, hran⟩
  case inr => exact ⟨final, hturn, Nat.le_trans (Nat.le_of_eq hran) (Nat.zero_le 1)⟩
  rw [hturn]
  unfold resume
  simp only
  generalize hnext : resumed behaviour allowInjectedBurst
    (PassState.drained allowInjectedBurst { worker } (collectRemote dequeue worker)) task
    (collectRemote dequeue worker).2.popNext.2 = next
  have hran : next.summary.ran = 1 := by
    rw [← hnext]
    rfl
  have hcredit : allowInjectedBurst = false ∨ next.burstCredit = 0 := by
    cases hburst : allowInjectedBurst with
    | false => exact .inl rfl
    | true =>
    right
    rw [← hnext, hburst]
    simp only [resumed, PassState.drained, if_true, true_and, Nat.zero_add]
    split <;> omega
  exact ⟨next, if_pos ⟨Nat.le_of_eq hran.symm, hcredit⟩, Nat.le_of_eq hran⟩

theorem Bounded.returnsWithin (hcounted : worker.Counted)
    (hbudget : 1 ≤ readyBudget) (h : Bounded worker readyBudget) :
    ReturnsWithin dequeue behaviour readyBudget worker (readyBudget + worker.held.length) := by
  have hmax : max 1 readyBudget = readyBudget := Nat.max_eq_right hbudget
  suffices hloop : ∃ fuel final,
      loop dequeue behaviour readyBudget (!worker.hasLocalWork) fuel { worker } = some final ∧
        final.summary.ran ≤ readyBudget by
    obtain ⟨fuel, final, hloop, hran⟩ := hloop
    refine ⟨fuel, final.summary, final.worker, ?_, Nat.le_trans hran (Nat.le_add_right ..)⟩
    unfold runReadyPassDetailed
    rw [hmax, hloop]
    rfl
  have hpaced : (!worker.hasLocalWork) = false ∨ worker.Slow →
      Paced readyBudget (!worker.hasLocalWork) { worker } := by
    intro hcase
    refine ⟨hcounted, hbudget, fun hburst => ⟨rfl, ?_⟩⟩
    rcases hcase with hlocal | hslow
    · rw [hlocal] at hburst
      cases hburst
    exact hslow
  rcases h with hlocal | hslow | ⟨rfl, hinject, hlocal⟩
  · exact (hpaced (.inl (by rw [hlocal]; rfl))).loop
  · exact (hpaced (.inr hslow)).loop
  obtain ⟨final, hturn, hran⟩ := turn_last dequeue behaviour hcounted hinject hlocal
  exact ⟨1, _, loop_leave hturn, hran⟩

variable (dequeue) in
/-- Where the condition fails, the pass with deferring entries is busy after two turns. -/
theorem busy_of_not_bounded (hcounted : worker.Counted)
    (hbudget : 1 ≤ readyBudget) (h : ¬ Bounded worker readyBudget) :
    ∃ next, turn dequeue deferring readyBudget true { worker } = .again next ∧
      (Busy next ∨ ∃ busy, turn dequeue deferring readyBudget true next = .again busy ∧
        Busy busy) := by
  simp only [Bounded, Slow, not_or, Bool.not_eq_true] at h
  obtain ⟨hidle, ⟨hmany, hslow⟩, hlast⟩ := h
  obtain ⟨hslot, hring⟩ := hasLocalWork_eq_false.1 hidle
  rw [length_held, hslot, hring, Option.toList_none, List.length_nil] at hmany
  have hpend : 0 < worker.outstanding := by omega
  have hfast : worker.hasPendingResume = true ∨ 2 ≤ worker.readyInjectBufferSize := by
    cases hresume : worker.hasPendingResume with
    | true => exact .inl rfl
    | false =>
    have hne : worker.readyInjectBufferSize ≠ 1 := fun hone => hslow ⟨hresume, hone⟩
    have hpos := worker.readyInjectBufferSize_pos
    exact .inr (by omega)
  obtain ⟨taken, batch, hdrained, hcount⟩ := worker.drainInjected_spec dequeue
  have hmoved := hdrained.pos (by rw [hring, List.length_nil]; omega) hpend
  by_cases hsingle : worker.readyInjectQueue = [] ∧ worker.readyResumeLocal.length = 1
  case neg =>
    have htwo := two_le_drained hdrained hring (by omega) hfast hsingle
    obtain ⟨next, hturn, hbusy⟩ := @busy_of_drained _ dequeue readyBudget { worker } _ _ hcounted
      hslot hpend hdrained hcount hmoved (by omega)
    exact ⟨next, hturn, .inl hbusy⟩
  -- One task is resumed first; then the rest of the resume queue is drained at once.
  obtain ⟨hinject, hlocal⟩ := hsingle
  have hbatch := hdrained.batch_length
  have htaken := hdrained.taken_length
  rw [hinject, List.length_nil] at htaken
  rw [if_neg (by intro hnil; rw [hnil] at hlocal; cases hlocal), hring, hlocal,
    List.length_nil] at hbatch
  have hone : readyBudget ≠ 1 := fun hone => hlast ⟨hone, hinject, hlocal⟩
  obtain ⟨next, hkept, hempty, hlen, ⟨task, hwaiting⟩, hsame, -, hran, hturn⟩ :=
    @turn_deferring _ dequeue readyBudget { worker } _ _ hcounted hslot hpend hdrained hcount hmoved
  have hrun : next.summary.ran = 1 := hran
  refine ⟨next, by rw [hturn, if_neg (by omega)], .inr ?_⟩
  have hempty' : next.worker.localRing.contents = [] := by
    simp only [hring, List.length_nil] at hlen
    rw [← List.length_eq_zero_iff]
    omega
  have hresume := congrArg List.length hdrained.resume
  rw [List.length_append, List.length_append, List.length_append, List.length_reverse,
    List.length_reverse, ← hsame.local_eq, ← hsame.chain_eq, hlocal] at hresume
  unfold outstanding at hmany
  rw [hinject, hlocal, List.length_nil] at hmany
  have hwait := congrArg List.length hwaiting
  rw [List.length_append, List.length_singleton] at hwait
  have hmany' : 2 ≤ next.worker.outstanding := by
    unfold outstanding
    omega
  have hpend' : next.worker.hasPendingResume = true := by
    cases hres : next.worker.hasPendingResume with
    | true => rfl
    | false =>
    obtain ⟨hnil, hnil'⟩ := hasPendingResume_eq_false.1 hres
    rw [hnil, hnil', List.length_nil] at hresume
    omega
  obtain ⟨taken', batch', hdrained', hcount'⟩ := next.worker.drainInjected_spec dequeue
  have htwo := two_le_drained hdrained' hempty' hmany' (.inl hpend') (by
    rintro ⟨hnil, -⟩
    rw [hnil, List.length_nil] at hwait
    omega)
  exact busy_of_drained readyBudget hkept hempty (by omega) hdrained' hcount' (by omega) (by omega)

/-- Where the condition fails, the pass with deferring entries never returns. -/
theorem not_returnsWithin (dequeue : BulkDequeue α)
    (hcounted : worker.Counted) (hbudget : 1 ≤ readyBudget) (h : ¬ Bounded worker readyBudget)
    (n : Nat) : ¬ ReturnsWithin dequeue deferring readyBudget worker n := by
  rintro ⟨fuel, summary, worker', hrun, -⟩
  have hidle : worker.hasLocalWork = false := by
    cases hlocal : worker.hasLocalWork with
    | false => rfl
    | true => exact absurd (.inl hlocal) h
  unfold runReadyPassDetailed at hrun
  rw [hidle, Nat.max_eq_right hbudget, Bool.not_false] at hrun
  obtain ⟨next, hturn, hnext⟩ := busy_of_not_bounded dequeue hcounted hbudget h
  have hnone : loop dequeue deferring readyBudget true fuel { worker } = none := by
    cases fuel with
    | zero => rfl
    | succ fuel =>
    rw [loop_again hturn]
    rcases hnext with hbusy | ⟨busy, hturn', hbusy⟩
    · exact hbusy.loop fuel
    cases fuel with
    | zero => rfl
    | succ fuel =>
    rw [loop_again hturn']
    exact hbusy.loop fuel
  rw [hnone] at hrun
  cases hrun

/-- The pass returns within the budget and the number of pending entries, whatever the entries do,
exactly when the condition holds. -/
theorem returnsWithin_iff (dequeue : BulkDequeue α) {worker : IOSchedulerWorkerState α}
    (hcounted : worker.Counted) (hbudget : 1 ≤ readyBudget) :
    (∀ behaviour, ReturnsWithin dequeue behaviour readyBudget worker
      (readyBudget + worker.held.length)) ↔ Bounded worker readyBudget := by
  constructor
  · intro hreturns
    by_contra hnot
    exact not_returnsWithin dequeue hcounted hbudget hnot _ (hreturns deferring)
  intro h behaviour
  exact h.returnsWithin hcounted hbudget

/-- A fresh worker with the default options, into which the entries are injected. -/
def injected (tasks : List Nat) : IOSchedulerWorkerState Nat :=
  tasks.foldl (fun worker task => (worker.scheduleInjected (some task)).2) (.new 256 8 8)

theorem returnsWithin_injected :
    (∀ behaviour, ReturnsWithin .fifo behaviour 1 (injected [7])
      (1 + (injected [7]).held.length)) ↔ Bounded (injected [7]) 1 :=
  returnsWithin_iff .fifo (by rfl) (Nat.le_refl 1)

/-- Two injected entries that defer themselves keep a pass with a budget of one going. -/
theorem not_returnsWithin_injected :
    (injected [1, 2]).Counted ∧
      ¬ ReturnsWithin .fifo deferring 1 (injected [1, 2]) (1 + (injected [1, 2]).held.length) := by
  refine ⟨by rfl, not_returnsWithin .fifo (by rfl) (Nat.le_refl 1) ?_ _⟩
  rintro (hlocal | (hone | ⟨-, hbuffer⟩) | ⟨-, hnil, -⟩)
  · revert hlocal
    decide
  · revert hone
    decide
  · revert hbuffer
    decide
  · cases hnil

end SchedulerCore

end Galay.Kernel
