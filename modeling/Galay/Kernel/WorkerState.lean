import Galay.Kernel.ReadyRing

/-!
# The scheduler worker (`galay-kernel/core/io_scheduler.hpp`, `task.h`)

`IOSchedulerWorkerState` without stealing. The calls are atomic and an enqueue succeeds. A chain of
tasks linked through `m_resume_queue_next` is a list, its head first; the flags
`m_resume_queue_claimed` of the tasks are the field `claimed`.
-/

namespace Galay.Kernel

variable {α : Type*}

/-- `try_dequeue_bulk` of the concurrent queue: it takes as many entries as there are, up to the
given number, in an order of its own. -/
structure BulkDequeue (α : Type*) where
  dequeue : List α → Nat → List α × List α
  perm : ∀ queue n, ((dequeue queue n).1 ++ (dequeue queue n).2).Perm queue
  length : ∀ queue n, (dequeue queue n).1.length = min n queue.length

/-- The oldest entries first, as with one producer. -/
def BulkDequeue.fifo : BulkDequeue α where
  dequeue queue n := (queue.take n, queue.drop n)
  perm queue n := by rw [List.take_append_drop]
  length queue n := List.length_take

structure TaskResumeQueue (α : Type*) where
  chain : List α := []
  closed : Bool := false

/-- The buffer for injected entries is never made empty. -/
structure IOSchedulerWorkerState (α : Type*) where
  readyLifoSlot : Option α := none
  localRing : ChaseLevTaskRing α := .new
  readyInjectQueue : List α := []
  readyInjectBufferSize : Nat
  readyInjectBufferSize_pos : 0 < readyInjectBufferSize
  readyResumeQueue : TaskResumeQueue α := {}
  readyResumeLocal : List α := []
  claimed : α → Bool := fun _ => false
  injectedOutstanding : Nat := 0
  consecutiveLifoPolls : Nat := 0
  lifoPollLimit : Nat := 8
  pollsSinceInject : Nat := 0
  injectCheckInterval : Nat := 8
  ownerDrainedInjectedOnce : Bool := false
  lifoEnabled : Bool := true
  preferResumeOnSingleSlot : Bool := true

namespace IOSchedulerWorkerState

def new (injectBatchSize lifoLimit injectInterval : Nat) : IOSchedulerWorkerState α where
  readyInjectBufferSize := max 1 injectBatchSize
  readyInjectBufferSize_pos := Nat.lt_of_lt_of_le Nat.one_pos (Nat.le_max_left ..)
  lifoPollLimit := lifoLimit
  injectCheckInterval := injectInterval

variable (worker : IOSchedulerWorkerState α)

/-! ## Scheduling -/

def fallbackToInject (task : α) : IOSchedulerWorkerState α :=
  { worker with
    injectedOutstanding := worker.injectedOutstanding + 1
    readyInjectQueue := worker.readyInjectQueue ++ [task] }

/-- An entry pushed into the ring, or injected where the ring is full. -/
def pushOrFallback (task : α) : IOSchedulerWorkerState α :=
  match worker.localRing.push_back (some task) with
  | some ring => { worker with localRing := ring }
  | none => worker.fallbackToInject task

def enqueueDeferred (task : α) : IOSchedulerWorkerState α :=
  if worker.localRing.remainingCapacity = 0 then worker.fallbackToInject task
  else worker.pushOrFallback task

def enqueueDeferredFifo (task : α) : IOSchedulerWorkerState α := worker.fallbackToInject task

variable (entry : ReadyEntry α)

def scheduleLocal : IOSchedulerWorkerState α :=
  match entry with
  | none => worker
  | some task =>
    if worker.lifoEnabled then
      match worker.readyLifoSlot with
      | some deferred =>
        { worker.enqueueDeferred deferred with readyLifoSlot := some task }
      | none => { worker with readyLifoSlot := some task }
    else worker.enqueueDeferred task

def scheduleLocalDeferred : IOSchedulerWorkerState α :=
  match entry with
  | none => worker
  | some task => worker.enqueueDeferredFifo task

/-- The answer is `some true` where nothing was outstanding, `none` where nothing was injected. -/
def scheduleInjected : Option Bool × IOSchedulerWorkerState α :=
  match entry with
  | none => (none, worker)
  | some task => (some (worker.injectedOutstanding = 0), worker.fallbackToInject task)

/-- A task that has been claimed and not been resumed since is rejected. -/
def scheduleResume [DecidableEq α] :
    Option Bool × IOSchedulerWorkerState α :=
  match entry with
  | none => (none, worker)
  | some task =>
    if worker.claimed task ∨ worker.readyResumeQueue.closed then (none, worker)
    else
      (some (worker.injectedOutstanding = 0), { worker with
          claimed := Function.update worker.claimed task true
          injectedOutstanding := worker.injectedOutstanding + 1
          readyResumeQueue :=
            { worker.readyResumeQueue with chain := task :: worker.readyResumeQueue.chain } })

variable {entry}

/-- The part of `resumeTaskState` that concerns the worker. -/
def resumeTaskState [DecidableEq α] (task : α) : IOSchedulerWorkerState α :=
  { worker with claimed := Function.update worker.claimed task false }

/-! ## Draining -/

def hasPendingInjected : Bool := 0 < worker.injectedOutstanding

def hasPendingResume : Bool :=
  worker.readyResumeLocal ≠ [] || worker.readyResumeQueue.chain ≠ []

def shouldCheckInjected : Bool := worker.injectCheckInterval ≤ worker.pollsSinceInject

def hasLocalWork : Bool := worker.readyLifoSlot.isSome || !worker.localRing.empty

/-- How many injected entries a drain asks for. -/
def drainTarget (remaining : Nat) : Nat :=
  let normalCapacity :=
    if worker.hasPendingResume then
      if 1 < remaining then remaining - 1
      else if worker.preferResumeOnSingleSlot then 0
      else remaining
    else remaining
  min normalCapacity worker.readyInjectBufferSize

/-- The buffer is emptied from its end, so that the oldest entry is popped first. -/
def pushInjected : List α → IOSchedulerWorkerState α → IOSchedulerWorkerState α
  | [], worker => worker
  | task :: rest, worker => pushInjected rest (worker.pushOrFallback task)

/-- The ring with the tasks pushed, and those that found no room. -/
def pushResumed : List α → ChaseLevTaskRing α → ChaseLevTaskRing α × List α
  | [], ring => (ring, [])
  | task :: rest, ring =>
    match ring.push_back (some task) with
    | some ring => pushResumed rest ring
    | none => (ring, task :: rest)

/-- The injected entries of a drain and how many they are. -/
def drainInjectQueue (dequeue : BulkDequeue α) (remaining : Nat) :
    Nat × IOSchedulerWorkerState α :=
  let (taken, rest) :=
    dequeue.dequeue worker.readyInjectQueue (worker.drainTarget remaining)
  let count := taken.length
  let worker : IOSchedulerWorkerState α := { worker with readyInjectQueue := rest }
  let worker : IOSchedulerWorkerState α :=
    if 0 < count then
      { worker with
        ownerDrainedInjectedOnce := true
        injectedOutstanding := worker.injectedOutstanding - count }
    else worker
  (count, pushInjected taken.reverse worker)

/-- The tasks to resume of a drain and how many of them were pushed. The batch is pushed in reverse;
what finds no room goes back to the front of the local chain. -/
def drainResumeQueue (limit : Nat) : Nat × IOSchedulerWorkerState α :=
  let worker : IOSchedulerWorkerState α :=
    if worker.readyResumeLocal = [] then
      { worker with
        readyResumeLocal := worker.readyResumeQueue.chain.reverse
        readyResumeQueue := { worker.readyResumeQueue with chain := [] } }
    else worker
  let batch := (worker.readyResumeLocal.take limit).reverse
  let (ring, unpushed) := pushResumed batch worker.localRing
  let count := batch.length - unpushed.length
  (count, { worker with
      localRing := ring
      readyResumeLocal := unpushed.reverse ++ worker.readyResumeLocal.drop limit })

/-- How many entries were moved to the ring, and the worker after it. -/
def drainInjected (dequeue : BulkDequeue α) : Nat × IOSchedulerWorkerState α :=
  let remaining := worker.localRing.remainingCapacity
  if worker.readyInjectBufferSize = 0 ∨ remaining = 0 then (0, worker)
  else
    let resumePending := worker.hasPendingResume
    let (count, worker) := worker.drainInjectQueue dequeue remaining
    let (resumeCount, worker) :=
      if count < remaining then worker.drainResumeQueue (remaining - count) else (0, worker)
    let worker : IOSchedulerWorkerState α :=
      if 0 < resumeCount then
        { worker with
          ownerDrainedInjectedOnce := true
          injectedOutstanding := worker.injectedOutstanding - resumeCount }
      else worker
    let worker : IOSchedulerWorkerState α :=
      if remaining = 1 ∧ resumePending then
        if 0 < resumeCount then { worker with preferResumeOnSingleSlot := false }
        else if 0 < count then { worker with preferResumeOnSingleSlot := true }
        else worker
      else worker
    (count + resumeCount, { worker with pollsSinceInject := 0 })

/-! ## Taking the next entry -/

def prepareForRun : IOSchedulerWorkerState α :=
  match worker.readyLifoSlot with
  | some deferred =>
    if worker.lifoEnabled ∧ worker.lifoPollLimit ≤ worker.consecutiveLifoPolls then
      { worker.enqueueDeferred deferred with
        readyLifoSlot := none
        lifoEnabled := false
        consecutiveLifoPolls := 0 }
    else worker
  | none => worker

def popNext : Option α × IOSchedulerWorkerState α :=
  let worker := worker.prepareForRun
  match worker.readyLifoSlot with
  | some task =>
    (some task, { worker with
        readyLifoSlot := none
        consecutiveLifoPolls := worker.consecutiveLifoPolls + 1
        pollsSinceInject := worker.pollsSinceInject + 1 })
  | none =>
    match worker.localRing.pop_back with
    | some (task, ring) =>
      (some task, { worker with
          localRing := ring
          lifoEnabled := true
          consecutiveLifoPolls := 0
          pollsSinceInject := worker.pollsSinceInject + 1 })
    | none => (none, worker)

end IOSchedulerWorkerState

end Galay.Kernel
