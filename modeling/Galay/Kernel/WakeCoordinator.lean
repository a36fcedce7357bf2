import Mathlib.Logic.Relation
import Mathlib.Logic.Function.Basic

/-!
# Waking the event loop (`galay-kernel/core/wake_coordinator.h`, `sched_loop.hpp`)

The threads that schedule on an epoll scheduler and its event loop, one atomic operation, queue
operation or access to the eventfd at a time. `ι` names the calls of `schedule` and
`scheduleResume`; an entry of a queue is the call that put it there, or `none` where the loop did.
What the loop runs and how much a drain moves is left open: the ring always has room for what a
drain has taken. Stealing is off for this scheduler, so that `trySteal` answers at once.
-/

namespace Galay.Kernel

structure WakeCoordinator where
  sleeping : Bool := true
  wakeupPending : Bool := false
  deriving DecidableEq, Repr

namespace WakeCoordinator

variable (coordinator : WakeCoordinator)

def markSleeping : WakeCoordinator := { coordinator with sleeping := true }

def markAwake : WakeCoordinator := { coordinator with sleeping := false }

def cancelPendingWake : WakeCoordinator := { coordinator with wakeupPending := false }

end WakeCoordinator

namespace Wake

/-- The two queues for entries of other threads. -/
inductive Queue
  | inject
  | resume
  deriving DecidableEq, Repr

/-- Where a call of `schedule` or `scheduleResume` is. -/
inductive CallPc
  | idle
  /-- `injected_outstanding` has been raised. -/
  | counted (queue : Queue) (wasEmpty : Bool)
  /-- The queue has rejected the entry. -/
  | rejected
  /-- In `requestWake`. -/
  | pushed (wasEmpty : Bool)
  /-- Before the exchange of `m_wakeup_pending`. -/
  | waking
  /-- Before the write to the eventfd. -/
  | notifying
  | finished
  deriving DecidableEq, Repr

/-- Where the event loop runs tasks and callbacks. -/
inductive Place
  /-- In the ready passes or in the timers. -/
  | pass
  /-- Handling the events, the eventfd possibly among those left. -/
  | events (signalled : Bool)
  deriving DecidableEq, Repr

/-- Where the event loop is; `α` are the entries. -/
inductive LoopPc (α : Type*)
  | running (place : Place)
  /-- `try_dequeue_bulk` has answered. -/
  | dequeued (batch : List α)
  | collecting (drained : Nat)
  | selecting (drained : Nat)
  | selected (drained resumed : Nat)
  | collected (drained : Nat)
  /-- In `onRemoteCollected`, awake. -/
  | cancelling
  | checking
  /-- In `epoll_wait`. -/
  | polling
  | reading
  /-- The eventfd has been read. -/
  | signalRead
  | awaking
  /-- In `fallbackToInject`, the counter raised. -/
  | injecting (place : Place)
  | rejected (place : Place)
  deriving DecidableEq, Repr

structure State (ι : Type*) where
  calls : ι → CallPc := fun _ => .idle
  loop : LoopPc (Option ι) := .running .pass
  coordinator : WakeCoordinator := {}
  eventFd : Nat := 0
  injectQueue : List (Option ι) := []
  /-- Newest first. -/
  resumeQueue : List (Option ι) := []
  resumeLocal : List (Option ι) := []
  /-- The slot and the ring. -/
  localWork : List (Option ι) := []
  injectedOutstanding : Nat := 0

variable {ι : Type*}

namespace State

variable (state : State ι)

def push (entry : Option ι) : Queue → State ι
  | .inject => { state with injectQueue := state.injectQueue ++ [entry] }
  | .resume => { state with resumeQueue := entry :: state.resumeQueue }

/-- Where `requestWake` goes after its first condition. -/
def afterLoad (wasEmpty : Bool) : CallPc :=
  if wasEmpty || state.coordinator.sleeping then .waking else .finished

/-- Where `requestWake` goes after its second condition. -/
def afterExchange : CallPc :=
  if state.coordinator.wakeupPending then .finished else .notifying

def hasPendingWork : Bool :=
  !state.localWork.isEmpty || 0 < state.injectedOutstanding

end State

section Calls

variable [DecidableEq ι]

/-- One step of a call. -/
inductive CallStep (state : State ι) (i : ι) : State ι → Prop
  | count (queue : Queue) (h : state.calls i = .idle) : CallStep state i
    { state with
      calls := Function.update state.calls i (.counted queue (state.injectedOutstanding = 0))
      injectedOutstanding := state.injectedOutstanding + 1 }
  | push {queue : Queue} {wasEmpty : Bool} (h : state.calls i = .counted queue wasEmpty) :
    CallStep state i
      { state.push (some i) queue with
        calls := Function.update state.calls i (.pushed wasEmpty) }
  | reject {queue : Queue} {wasEmpty : Bool} (h : state.calls i = .counted queue wasEmpty) :
    CallStep state i { state with calls := Function.update state.calls i .rejected }
  | uncount (h : state.calls i = .rejected) : CallStep state i
    { state with
      calls := Function.update state.calls i .finished
      injectedOutstanding := state.injectedOutstanding - 1 }
  | load {wasEmpty : Bool} (h : state.calls i = .pushed wasEmpty) : CallStep state i
    { state with calls := Function.update state.calls i (state.afterLoad wasEmpty) }
  | exchange (h : state.calls i = .waking) : CallStep state i
    { state with
      calls := Function.update state.calls i state.afterExchange
      coordinator := { state.coordinator with wakeupPending := true } }
  | notify (h : state.calls i = .notifying) : CallStep state i
    { state with
      calls := Function.update state.calls i .finished
      eventFd := state.eventFd + 1 }

end Calls

/-- One step of the event loop. -/
inductive LoopStep (state : State ι) : State ι → Prop
  -- Tasks, callbacks and event handlers schedule on the loop's own thread.
  | scheduleLocal {place : Place} (h : state.loop = .running place) : LoopStep state
    { state with localWork := none :: state.localWork }
  | popNext {entry : Option ι} {rest : List (Option ι)} (h : state.loop = .running .pass)
    (hwork : state.localWork.Perm (entry :: rest)) :
    LoopStep state { state with localWork := rest }
  | fallback {place : Place} (h : state.loop = .running place) : LoopStep state
    { state with
      loop := .injecting place
      injectedOutstanding := state.injectedOutstanding + 1 }
  | enqueue {place : Place} (h : state.loop = .injecting place) : LoopStep state
    { state.push none .inject with loop := .running place }
  | reject {place : Place} (h : state.loop = .injecting place) : LoopStep state
    { state with loop := .rejected place }
  | uncount {place : Place} (h : state.loop = .rejected place) : LoopStep state
    { state with loop := .running place, injectedOutstanding := state.injectedOutstanding - 1 }
  -- `drainInjected`
  | dequeue {batch rest : List (Option ι)} (h : state.loop = .running .pass)
    (htaken : state.injectQueue.Perm (batch ++ rest)) : LoopStep state
    { state with loop := .dequeued batch, injectQueue := rest }
  | transfer {batch : List (Option ι)} (h : state.loop = .dequeued batch) : LoopStep state
    { state with
      loop := .collecting batch.length
      localWork := batch ++ state.localWork
      injectedOutstanding := state.injectedOutstanding - batch.length }
  | takeAll {drained : Nat} (h : state.loop = .collecting drained)
    (hlocal : state.resumeLocal = []) : LoopStep state
    { state with
      loop := .selecting drained
      resumeLocal := state.resumeQueue.reverse
      resumeQueue := [] }
  | keepLocal {drained : Nat} (h : state.loop = .collecting drained)
    (hlocal : state.resumeLocal ≠ []) : LoopStep state
    { state with loop := .selecting drained }
  | select {drained : Nat} (resumed : Nat) (h : state.loop = .selecting drained)
    (hresumed : resumed ≤ state.resumeLocal.length) : LoopStep state
    { state with
      loop := .selected drained resumed
      resumeLocal := state.resumeLocal.drop resumed
      localWork := state.resumeLocal.take resumed ++ state.localWork }
  | settle {drained resumed : Nat} (h : state.loop = .selected drained resumed) : LoopStep state
    { state with
      loop := .collected (drained + resumed)
      injectedOutstanding := state.injectedOutstanding - resumed }
  -- Where the ring is full the queue of tasks to resume is left alone.
  | full {drained : Nat} (h : state.loop = .collecting drained) : LoopStep state
    { state with loop := .collected drained }
  -- `onRemoteCollected`
  | nothing (h : state.loop = .collected 0) : LoopStep state { state with loop := .running .pass }
  | collect {drained : Nat} (h : state.loop = .collected drained) (hdrained : drained ≠ 0) :
    LoopStep state
      { state with loop := .cancelling, coordinator := state.coordinator.markAwake }
  | cancel (h : state.loop = .cancelling) : LoopStep state
    { state with loop := .running .pass, coordinator := state.coordinator.cancelPendingWake }
  -- The end of an iteration
  | sleep (h : state.loop = .running .pass) : LoopStep state
    { state with loop := .checking, coordinator := state.coordinator.markSleeping }
  | stay (h : state.loop = .checking) (hwork : state.hasPendingWork = true) : LoopStep state
    { state with loop := .awaking }
  | poll (h : state.loop = .checking) (hidle : state.hasPendingWork = false) : LoopStep state
    { state with loop := .polling }
  -- `epoll_wait` returns: other events, the timeout or an error, and the eventfd if it is readable.
  | wait (h : state.loop = .polling) : LoopStep state { state with loop := .running (.events false) }
  | signal (h : state.loop = .polling) (hfd : 0 < state.eventFd) : LoopStep state
    { state with loop := .running (.events true) }
  | handle (h : state.loop = .running (.events true)) : LoopStep state { state with loop := .reading }
  | read (h : state.loop = .reading) (hfd : 0 < state.eventFd) : LoopStep state
    { state with eventFd := 0 }
  | readEnd (h : state.loop = .reading) (hfd : state.eventFd = 0) : LoopStep state
    { state with loop := .signalRead }
  | cancelRead (h : state.loop = .signalRead) : LoopStep state
    { state with loop := .running (.events false), coordinator := state.coordinator.cancelPendingWake }
  | leave (h : state.loop = .running (.events false)) : LoopStep state { state with loop := .awaking }
  | awake (h : state.loop = .awaking) : LoopStep state
    { state with loop := .running .pass, coordinator := state.coordinator.markAwake }

/-- A step of any call or of the loop. -/
inductive Step [DecidableEq ι] (state : State ι) : State ι → Prop
  | call {next : State ι} (i : ι) (h : CallStep state i next) : Step state next
  | loop {next : State ι} (h : LoopStep state next) : Step state next

/-- The states that a scheduler reaches after its start. -/
def Reachable [DecidableEq ι] (state : State ι) : Prop := Relation.ReflTransGen Step {} state

end Wake

end Galay.Kernel
