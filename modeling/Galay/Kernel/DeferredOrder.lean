import Galay.Kernel.WorkerConservation

/-!
# In which order deferred entries are popped

A drain pushes its batch in reverse, so that the owner pops the oldest entry of the batch first. The
batch comes before what the ring still holds, so the order is kept when the ring is empty.
-/

namespace Galay.Kernel

open List

variable {α : Type*}

namespace IOSchedulerWorkerState

variable {worker : IOSchedulerWorkerState α}

/-- Nothing but deferred entries has been scheduled. -/
structure DeferredOnly (worker : IOSchedulerWorkerState α) : Prop where
  slot : worker.readyLifoSlot = none
  resumeLocal : worker.readyResumeLocal = []
  resumeChain : worker.readyResumeQueue.chain = []

/-- The entries in the order in which they are popped when no more are drained into a filled ring. -/
def deferred (worker : IOSchedulerWorkerState α) : List α :=
  worker.localRing.contents.reverse ++ worker.readyInjectQueue

theorem DeferredOnly.drainTarget (h : worker.DeferredOnly) (remaining : Nat) :
    worker.drainTarget remaining = min remaining worker.readyInjectBufferSize := by
  unfold IOSchedulerWorkerState.drainTarget hasPendingResume
  simp [h.resumeLocal, h.resumeChain]

/-- With nothing to resume the second half of a drain does nothing. -/
theorem DeferredOnly.drainResumeQueue (h : worker.DeferredOnly) (limit : Nat) :
    worker.drainResumeQueue limit = (0, worker) := by
  obtain ⟨-, hlocal, hchain⟩ := h
  unfold IOSchedulerWorkerState.drainResumeQueue
  obtain ⟨slot, ring, queue, size, hsize, ⟨chain, closed⟩, left⟩ := worker
  simp only at hlocal hchain
  subst hlocal hchain
  simp [pushResumed]

/-- The oldest entries of the queue are taken, and pushed with the oldest one last. -/
theorem DeferredOnly.drainInjectQueue (h : worker.DeferredOnly)
    (hrem : remaining = 256 - worker.localRing.contents.length) :
    (worker.drainInjectQueue .fifo remaining).2.DeferredOnly ∧
    (worker.drainInjectQueue .fifo remaining).2.localRing.contents = worker.localRing.contents ++
        (worker.readyInjectQueue.take (min remaining worker.readyInjectBufferSize)).reverse ∧
    (worker.drainInjectQueue .fifo remaining).2.readyInjectQueue =
      worker.readyInjectQueue.drop (min remaining worker.readyInjectBufferSize) := by
  have hfull := worker.localRing.length_contents_le
  unfold IOSchedulerWorkerState.drainInjectQueue
  simp only [BulkDequeue.fifo, h.drainTarget]
  generalize htarget : min remaining worker.readyInjectBufferSize = target
  have hroom : worker.localRing.contents.length +
      (worker.readyInjectQueue.take target).reverse.length ≤ 256 := by
    rw [length_reverse, length_take]
    omega
  split
  · obtain ⟨ring, heq, hcont⟩ := pushInjected_eq (worker.readyInjectQueue.take target).reverse
      { worker with
        readyInjectQueue := worker.readyInjectQueue.drop target
        ownerDrainedInjectedOnce := true
        injectedOutstanding := worker.injectedOutstanding -
          (worker.readyInjectQueue.take target).length } hroom
    rw [heq]
    exact ⟨{ h with }, hcont, rfl⟩
  obtain ⟨ring, heq, hcont⟩ := pushInjected_eq (worker.readyInjectQueue.take target).reverse
    { worker with readyInjectQueue := worker.readyInjectQueue.drop target } hroom
  rw [heq]
  exact ⟨{ h with }, hcont, rfl⟩

/-- How many entries a drain asks for. -/
def drainLimit (worker : IOSchedulerWorkerState α) : Nat :=
  min (256 - worker.localRing.contents.length) worker.readyInjectBufferSize

theorem DeferredOnly.drainInjected (h : worker.DeferredOnly) :
    (worker.drainInjected .fifo).2.DeferredOnly ∧
    (worker.drainInjected .fifo).2.localRing.contents =
      worker.localRing.contents ++ (worker.readyInjectQueue.take worker.drainLimit).reverse ∧
    (worker.drainInjected .fifo).2.readyInjectQueue =
      worker.readyInjectQueue.drop worker.drainLimit := by
  unfold IOSchedulerWorkerState.drainInjected drainLimit
  rw [ChaseLevTaskRing.remainingCapacity_eq]
  have hpos := worker.readyInjectBufferSize_pos
  have hpend : worker.hasPendingResume = false := by
    simp [hasPendingResume, h.resumeLocal, h.resumeChain]
  obtain ⟨hdeferred, hring, hqueue⟩ := h.drainInjectQueue rfl
  by_cases hnone : worker.readyInjectBufferSize = 0 ∨ 256 - worker.localRing.contents.length = 0
  · have hzero : 256 - worker.localRing.contents.length = 0 := by omega
    rw [if_pos hnone, hzero, Nat.zero_min, take_zero, reverse_nil, append_nil, drop_zero]
    exact ⟨h, rfl, rfl⟩
  simp only [if_neg hnone, hdeferred.drainResumeQueue, ite_self, Nat.lt_irrefl, if_false, hpend,
    and_false, Bool.false_eq_true]
  exact ⟨{ hdeferred with }, hring, hqueue⟩

theorem DeferredOnly.popNext (h : worker.DeferredOnly) :
    worker.popNext.2.DeferredOnly ∧
    worker.localRing.contents = worker.popNext.2.localRing.contents ++ worker.popNext.1.toList ∧
    worker.popNext.2.readyInjectQueue = worker.readyInjectQueue := by
  have hready : worker.prepareForRun = worker := by
    unfold prepareForRun
    rw [h.slot]
  unfold IOSchedulerWorkerState.popNext
  simp only [hready, h.slot]
  rcases worker.localRing.pop_back_cases with ⟨hpop, hempty⟩ | ⟨task, ring, hpop, hring⟩
  · simp only [hpop]
    exact ⟨h, (append_nil _).symm, trivial⟩
  simp only [hpop]
  exact ⟨{ h with slot := rfl }, hring, trivial⟩

/-- The order of the entries is kept when the ring is empty, or when none is drained. -/
theorem DeferredOnly.deferred_drainInjected (h : worker.DeferredOnly)
    (hclean : worker.localRing.contents = [] ∨ worker.localRing.contents.length = 256 ∨
      worker.readyInjectQueue = []) :
    (worker.drainInjected .fifo).2.deferred = worker.deferred := by
  obtain ⟨-, hring, hqueue⟩ := h.drainInjected
  unfold deferred
  rw [hring, hqueue, reverse_append, reverse_reverse]
  rcases hclean with hempty | hfull | hempty
  · rw [hempty, reverse_nil, append_nil, nil_append, take_append_drop]
  · rw [drainLimit, hfull, Nat.sub_self, Nat.zero_min, take_zero, drop_zero, nil_append]
  rw [hempty, take_nil, drop_nil, nil_append]

end IOSchedulerWorkerState

/-! ## Runs -/

open IOSchedulerWorkerState

/-- The calls that deferred entries take. -/
inductive DeferredCall (α : Type*)
  | scheduleLocalDeferred (entry : ReadyEntry α)
  | drainInjected
  | popNext

namespace DeferredCall

def toCall : DeferredCall α → WorkerCall α
  | .scheduleLocalDeferred entry => .scheduleLocalDeferred entry
  | .drainInjected => .drainInjected .fifo
  | .popNext => .popNext

/-- A drain comes to an empty ring, or finds no room or nothing to drain. -/
def Clean (worker : IOSchedulerWorkerState α) : DeferredCall α → Prop
  | .drainInjected => worker.localRing.contents = [] ∨ worker.localRing.contents.length = 256 ∨
    worker.readyInjectQueue = []
  | _ => True

end DeferredCall

namespace WorkerLedger

variable [DecidableEq α]

/-- The calls one after the other. -/
def calls (ledger : WorkerLedger α) (list : List (DeferredCall α)) : WorkerLedger α :=
  list.foldl (fun ledger next => ledger.call next.toCall) ledger

/-- Every call of the run is clean. -/
def CleanRun (ledger : WorkerLedger α) : List (DeferredCall α) → Prop
  | [] => True
  | next :: rest => next.Clean ledger.worker ∧ CleanRun (ledger.call next.toCall) rest

/-- What has been popped comes first, and the rest in the order of its pops. -/
structure Ordered (ledger : WorkerLedger α) : Prop where
  deferredOnly : ledger.worker.DeferredOnly
  order : ledger.popped ++ ledger.worker.deferred = ledger.accepted

theorem Ordered.call {ledger : WorkerLedger α} (h : ledger.Ordered) {next : DeferredCall α}
    (hclean : next.Clean ledger.worker) : (ledger.call next.toCall).Ordered := by
  cases next with
  | scheduleLocalDeferred entry =>
    cases entry with
    | none => exact ⟨h.deferredOnly, h.order.trans (append_nil _).symm⟩
    | some task =>
    refine ⟨{ h.deferredOnly with }, ?_⟩
    change ledger.popped ++ (ledger.worker.localRing.contents.reverse ++
      (ledger.worker.readyInjectQueue ++ [task])) = ledger.accepted ++ [task]
    rw [← h.order, deferred]
    simp only [append_assoc]
  | drainInjected =>
    refine ⟨h.deferredOnly.drainInjected.1, ?_⟩
    exact (congrArg _ (h.deferredOnly.deferred_drainInjected hclean)).trans h.order
  | popNext =>
  obtain ⟨hdeferred, hring, hqueue⟩ := h.deferredOnly.popNext
  refine ⟨hdeferred, ?_⟩
  have horder := h.order
  rw [deferred, hring, reverse_append, ← hqueue] at horder
  change ledger.popped ++ ledger.worker.popNext.1.toList ++
    (ledger.worker.popNext.2.localRing.contents.reverse ++
      ledger.worker.popNext.2.readyInjectQueue) = ledger.accepted
  rw [← horder]
  cases ledger.worker.popNext.1 with
  | none => simp
  | some task => simp

theorem ordered_calls {ledger : WorkerLedger α} (h : ledger.Ordered) (list : List (DeferredCall α))
    (hclean : ledger.CleanRun list) : (ledger.calls list).Ordered := by
  induction list generalizing ledger with
  | nil => exact h
  | cons next rest ih => exact ih (h.call hclean.1) hclean.2

/-- In every run whose drains come to an empty ring or drain nothing, the entries are popped in the
order in which they were accepted. -/
theorem popped_fifo_of_cleanRun (injectBatchSize lifoLimit injectInterval : Nat)
    (list : List (DeferredCall α))
    (hclean : CleanRun { worker := .new injectBatchSize lifoLimit injectInterval } list) :
    let ledger := calls { worker := .new injectBatchSize lifoLimit injectInterval } list
    ledger.popped <+: ledger.accepted := by
  have hnew : Ordered ({ worker := .new injectBatchSize lifoLimit injectInterval } :
      WorkerLedger α) := ⟨⟨rfl, rfl, rfl⟩, rfl⟩
  exact ⟨_, (ordered_calls hnew list hclean).order⟩

theorem popped_fifo_of_two_batches :
    let ledger := calls { worker := .new 1 8 8 } [.scheduleLocalDeferred (some 1),
      .scheduleLocalDeferred (some 2), .drainInjected, .popNext, .drainInjected, .popNext]
    ledger.popped = [1, 2] ∧ ledger.popped <+: ledger.accepted := by
  refine ⟨by decide, popped_fifo_of_cleanRun 1 8 8 _ ?_⟩
  exact ⟨trivial, trivial, .inl (by decide), trivial, .inl (by decide), trivial, trivial⟩

/-- An entry that is drained later overtakes one that is still in the ring. -/
theorem popped_not_fifo :
    let ledger := calls { worker := .new 1 8 8 } [.scheduleLocalDeferred (some 1), .drainInjected,
      .scheduleLocalDeferred (some 2), .drainInjected, .popNext]
    ledger.accepted = [1, 2] ∧ ledger.popped = [2] ∧ ¬ ledger.popped <+: ledger.accepted := by
  decide

end WorkerLedger

end Galay.Kernel
