import Galay.Kernel.WorkerLemmas

/-!
# A worker conserves its ready entries

Whatever the calls, the entries of the five containers together with those that have been popped
are the accepted ones, and the counter of injected entries counts those outside the ring and the
slot.
-/

namespace Galay.Kernel

open List

namespace IOSchedulerWorkerState

variable {α : Type*} [DecidableEq α]

/-- The entries of the LIFO slot, the ring, the inject queue, the resume queue and the local chain. -/
def held (worker : IOSchedulerWorkerState α) : List α :=
  worker.readyLifoSlot.toList ++ worker.localRing.contents ++ worker.readyInjectQueue ++
    worker.readyResumeQueue.chain ++ worker.readyResumeLocal

/-- The counter is the number of entries that have not been moved to the ring. -/
def Counted (worker : IOSchedulerWorkerState α) : Prop :=
  worker.injectedOutstanding = worker.readyInjectQueue.length +
    worker.readyResumeQueue.chain.length + worker.readyResumeLocal.length

variable {worker worker' : IOSchedulerWorkerState α} {taken batch : List α} (a : α)

theorem count_held : worker.held.count a =
    worker.readyLifoSlot.toList.count a + worker.localRing.contents.count a +
      worker.readyInjectQueue.count a + worker.readyResumeQueue.chain.count a +
      worker.readyResumeLocal.count a := by
  simp only [held, count_append]

theorem count_fallbackToInject (task : α) :
    (worker.fallbackToInject task).held.count a = worker.held.count a + [task].count a := by
  simp only [count_held, fallbackToInject, count_append]
  omega

theorem count_enqueueDeferred (task : α) :
    (worker.enqueueDeferred task).held.count a = worker.held.count a + [task].count a := by
  rcases worker.enqueueDeferred_cases task with ⟨ring, heq, hring⟩ | ⟨heq, -⟩
  · rw [heq]
    simp only [count_held, hring, count_append]
    omega
  rw [heq, count_fallbackToInject]

omit [DecidableEq α] in
theorem counted_fallbackToInject (h : worker.Counted) (task : α) :
    (worker.fallbackToInject task).Counted := by
  unfold Counted at h ⊢
  simp only [fallbackToInject, length_append, length_singleton]
  omega

omit [DecidableEq α] in
theorem counted_enqueueDeferred (h : worker.Counted) (task : α) :
    (worker.enqueueDeferred task).Counted := by
  rcases worker.enqueueDeferred_cases task with ⟨ring, heq, -⟩ | ⟨heq, -⟩
  · rw [heq]
    exact h
  rw [heq]
  exact counted_fallbackToInject h task

omit [DecidableEq α] in
theorem readyLifoSlot_enqueueDeferred (task : α) :
    (worker.enqueueDeferred task).readyLifoSlot = worker.readyLifoSlot := by
  rcases worker.enqueueDeferred_cases task with ⟨ring, heq, -⟩ | ⟨heq, -⟩
  · rw [heq]
  rw [heq]
  rfl

/-- The entry of the slot, moved behind it. -/
theorem count_displaced (deferred : α) (hslot : worker.readyLifoSlot = some deferred)
    (slot : Option α) :
    (held { worker.enqueueDeferred deferred with readyLifoSlot := slot }).count a =
      worker.held.count a + slot.toList.count a := by
  have hmoved := @count_enqueueDeferred _ _ worker a deferred
  rw [count_held, count_held, readyLifoSlot_enqueueDeferred, hslot] at hmoved
  rw [count_held, count_held, hslot]
  simp only [Option.toList_some] at hmoved ⊢
  omega

theorem count_scheduleLocal (entry : ReadyEntry α) :
    (worker.scheduleLocal entry).held.count a = worker.held.count a + entry.toList.count a := by
  unfold scheduleLocal
  cases entry with
  | none => rfl
  | some task =>
  cases hlifo : worker.lifoEnabled with
  | false => exact count_enqueueDeferred a task
  | true =>
  cases hslot : worker.readyLifoSlot with
  | some deferred => exact count_displaced a deferred hslot (some task)
  | none =>
  simp only [if_true, count_held, hslot, Option.toList_none, Option.toList_some, count_nil]
  omega

omit [DecidableEq α] in
theorem counted_scheduleLocal (h : worker.Counted) (entry : ReadyEntry α) :
    (worker.scheduleLocal entry).Counted := by
  unfold scheduleLocal
  cases entry with
  | none => exact h
  | some task =>
  cases hlifo : worker.lifoEnabled with
  | false => exact counted_enqueueDeferred h task
  | true =>
  cases hslot : worker.readyLifoSlot with
  | some deferred => exact counted_enqueueDeferred h deferred
  | none => exact h

theorem Drained.count (h : worker.Drained taken batch worker') :
    worker'.held.count a = worker.held.count a := by
  have hinject := h.inject.count_eq a
  have hresume := congrArg (List.count a) h.resume
  simp only [count_append, count_reverse] at hinject hresume
  rw [count_held, count_held, h.slot, h.ring]
  simp only [count_append, count_reverse]
  omega

omit [DecidableEq α] in
theorem Drained.counted (h : worker.Drained taken batch worker') (hcounted : worker.Counted) :
    worker'.Counted := by
  have hinject := h.inject.length_eq
  have hresume := congrArg List.length h.resume
  simp only [length_append, length_reverse] at hinject hresume
  unfold Counted at hcounted ⊢
  rw [h.outstanding]
  omega

theorem count_prepareForRun : worker.prepareForRun.held.count a = worker.held.count a := by
  unfold prepareForRun
  split
  · next deferred hslot =>
    split
    · exact count_displaced a deferred hslot none
    rfl
  rfl

omit [DecidableEq α] in
theorem counted_prepareForRun (h : worker.Counted) : worker.prepareForRun.Counted := by
  unfold prepareForRun
  split
  · next deferred hslot =>
    split
    · exact counted_enqueueDeferred h deferred
    exact h
  exact h

/-- A pop takes one entry, and none only where the slot and the ring are empty. -/
theorem popNext_cases (worker : IOSchedulerWorkerState α) :
    (∃ task, worker.popNext.1 = some task ∧
      ∀ a, worker.popNext.2.held.count a + [task].count a = worker.held.count a) ∨
    worker.popNext.1 = none ∧ ∀ a, worker.popNext.2.held.count a = worker.held.count a := by
  have hprepare := fun a => @count_prepareForRun _ _ worker a
  unfold popNext
  revert hprepare
  generalize worker.prepareForRun = ready
  intro hprepare
  simp only
  cases hslot : ready.readyLifoSlot with
  | some task =>
    refine .inl ⟨task, rfl, ?_⟩
    intro a
    rw [← hprepare a, count_held, count_held, hslot]
    simp only [Option.toList_none, Option.toList_some, count_nil]
    omega
  | none =>
  rcases ready.localRing.pop_back_cases with ⟨hpop, -⟩ | ⟨task, ring, hpop, hring⟩
  · simp only [hpop]
    exact .inr ⟨trivial, hprepare⟩
  simp only [hpop]
  refine .inl ⟨task, rfl, ?_⟩
  intro a
  rw [← hprepare a, count_held, count_held, hring]
  simp only [count_append, hslot]
  omega

omit [DecidableEq α] in
theorem counted_popNext (h : worker.Counted) : worker.popNext.2.Counted := by
  have hready := counted_prepareForRun h
  unfold popNext
  simp only
  split
  · exact hready
  split
  · exact hready
  exact hready

end IOSchedulerWorkerState

/-! ## Runs of calls -/

/-- A call on a worker; `resumed` is a task that has been popped and now runs. -/
inductive WorkerCall (α : Type*)
  | scheduleLocal (entry : ReadyEntry α)
  | scheduleLocalDeferred (entry : ReadyEntry α)
  | scheduleInjected (entry : ReadyEntry α)
  | scheduleResume (entry : ReadyEntry α)
  | drainInjected (dequeue : BulkDequeue α)
  | popNext
  | resumed (task : α)

/-- A worker with the entries that its calls have accepted and those that have been popped. -/
structure WorkerLedger (α : Type*) where
  worker : IOSchedulerWorkerState α
  accepted : List α := []
  popped : List α := []

namespace WorkerLedger

variable {α : Type*} [DecidableEq α]

/-- An answer of a remote call says whether its entry was accepted. -/
def acceptedBy (answer : Option Bool) (entry : ReadyEntry α) : List α :=
  if answer.isSome then entry.toList else []

def call (ledger : WorkerLedger α) : WorkerCall α → WorkerLedger α
  | .scheduleLocal entry =>
    { ledger with
      worker := ledger.worker.scheduleLocal entry
      accepted := ledger.accepted ++ entry.toList }
  | .scheduleLocalDeferred entry =>
    { ledger with
      worker := ledger.worker.scheduleLocalDeferred entry
      accepted := ledger.accepted ++ entry.toList }
  | .scheduleInjected entry =>
    let (answer, worker) := ledger.worker.scheduleInjected entry
    { ledger with worker, accepted := ledger.accepted ++ acceptedBy answer entry }
  | .scheduleResume entry =>
    let (answer, worker) := ledger.worker.scheduleResume entry
    { ledger with worker, accepted := ledger.accepted ++ acceptedBy answer entry }
  | .drainInjected dequeue => { ledger with worker := (ledger.worker.drainInjected dequeue).2 }
  | .popNext =>
    let (task, worker) := ledger.worker.popNext
    { ledger with worker, popped := ledger.popped ++ task.toList }
  | .resumed task => { ledger with worker := ledger.worker.resumeTaskState task }

/-- The books of a worker: nothing is lost, nothing is there twice, and the counter is right. -/
structure Balanced (ledger : WorkerLedger α) : Prop where
  entries : (ledger.worker.held ++ ledger.popped).Perm ledger.accepted
  counter : ledger.worker.Counted

open IOSchedulerWorkerState

theorem balanced_iff {ledger : WorkerLedger α} : ledger.Balanced ↔
    (∀ a, ledger.worker.held.count a + ledger.popped.count a = ledger.accepted.count a) ∧
      ledger.worker.Counted := by
  constructor
  · intro h
    refine ⟨fun a => ?_, h.counter⟩
    rw [← count_append]
    exact h.entries.count_eq a
  rintro ⟨hcount, hcounter⟩
  refine ⟨List.perm_iff_count.2 fun a => ?_, hcounter⟩
  rw [count_append]
  exact hcount a

theorem Balanced.call {ledger : WorkerLedger α} (h : ledger.Balanced) (call : WorkerCall α) :
    (ledger.call call).Balanced := by
  rw [balanced_iff] at h ⊢
  obtain ⟨hcount, hcounted⟩ := h
  have hnothing : ∀ a, ledger.worker.held.count a + ledger.popped.count a =
      (ledger.accepted ++ ([] : List α)).count a := by
    intro a
    rw [append_nil]
    exact hcount a
  cases call with
  | scheduleLocal entry =>
    refine ⟨fun a => ?_, counted_scheduleLocal hcounted entry⟩
    simp only [WorkerLedger.call, count_scheduleLocal, count_append, ← hcount a]
    omega
  | scheduleLocalDeferred entry =>
    cases entry with
    | none => exact ⟨hnothing, hcounted⟩
    | some task =>
    refine ⟨fun a => ?_, counted_fallbackToInject hcounted task⟩
    have hmoved := @count_fallbackToInject _ _ ledger.worker a task
    simp only [WorkerLedger.call, scheduleLocalDeferred, enqueueDeferredFifo, hmoved,
      count_append, ← hcount a, Option.toList_some]
    omega
  | scheduleInjected entry =>
    cases entry with
    | none => exact ⟨hnothing, hcounted⟩
    | some task =>
    refine ⟨fun a => ?_, counted_fallbackToInject hcounted task⟩
    have hmoved := @count_fallbackToInject _ _ ledger.worker a task
    simp only [WorkerLedger.call, scheduleInjected, acceptedBy, hmoved, count_append,
      ← hcount a, Option.toList_some, Option.isSome_some, if_true]
    omega
  | scheduleResume entry =>
    cases entry with
    | none => exact ⟨hnothing, hcounted⟩
    | some task =>
    by_cases hclaimed : ledger.worker.claimed task = true ∨
        ledger.worker.readyResumeQueue.closed = true
    · simp only [WorkerLedger.call, scheduleResume, if_pos hclaimed, acceptedBy]
      exact ⟨hnothing, hcounted⟩
    simp only [WorkerLedger.call, scheduleResume, if_neg hclaimed, acceptedBy]
    refine ⟨fun a => ?_, ?_⟩
    · have hbefore := hcount a
      rw [count_held] at hbefore
      rw [count_held]
      simp only [count_append, count_cons, count_nil, ← hbefore,
        Option.toList_some, Option.isSome_some, if_true]
      omega
    unfold Counted at hcounted ⊢
    simp only [length_cons]
    omega
  | drainInjected dequeue =>
    obtain ⟨taken, batch, hdrained, -⟩ := ledger.worker.drainInjected_spec dequeue
    refine ⟨fun a => ?_, hdrained.counted hcounted⟩
    exact (congrArg (· + ledger.popped.count a) (hdrained.count a)).trans (hcount a)
  | popNext =>
    refine ⟨fun a => ?_, counted_popNext hcounted⟩
    simp only [WorkerLedger.call, count_append, ← hcount a]
    rcases ledger.worker.popNext_cases with ⟨task, htask, hmoved⟩ | ⟨hnone, hmoved⟩
    · rw [htask, ← hmoved a, Option.toList_some]
      omega
    rw [hnone, hmoved a, Option.toList_none, count_nil]
    rfl
  | resumed task => exact ⟨hcount, hcounted⟩

/-- For every sequence of calls on a new worker. -/
theorem balanced_calls (injectBatchSize lifoLimit injectInterval : Nat)
    (calls : List (WorkerCall α)) :
    (calls.foldl call
      ⟨.new injectBatchSize lifoLimit injectInterval, [], []⟩).Balanced := by
  have hstart : Balanced (⟨.new injectBatchSize lifoLimit injectInterval, [], []⟩ :
      WorkerLedger α) := ⟨.refl _, rfl⟩
  revert hstart
  generalize (⟨.new injectBatchSize lifoLimit injectInterval, [], []⟩ : WorkerLedger α) = ledger
  intro hstart
  induction calls generalizing ledger with
  | nil => exact hstart
  | cons call calls ih => exact ih _ (hstart.call call)

end WorkerLedger

end Galay.Kernel
