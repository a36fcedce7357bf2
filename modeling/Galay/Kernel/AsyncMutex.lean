import Mathlib.Logic.Function.Basic

/-!
# The asynchronous mutex (`galay-kernel/async/async_mutex.h`, `core/timeout.hpp`)

Each call of the mutex, of the timer and of the awaitable is taken as one step. `ι` names the
attempts to lock: `co_await mutex.lock()`, with or without `timeout`. The queue of waiters gives up
its elements in any order; the order of one call is part of the call.
-/

namespace Galay.Kernel.AsyncMutex

/-- Where an attempt is. -/
inductive Phase
  | idle
  /-- `await_ready` has answered `false`. -/
  | refused
  | suspended
  /-- It has been told that it holds the lock. -/
  | holding
  /-- It has been told that it timed out. -/
  | timedOut
  | released
  deriving DecidableEq, Repr

/-- `TimeoutTimer::Completion`, as far as an awaitable without transactions gets. -/
inductive Completion
  | pending
  | operationWon
  | timeoutWon
  deriving DecidableEq, Repr

/-- An awaitable with its waiter and its timer. -/
structure Attempt where
  phase : Phase := .idle
  timed : Bool := false
  active : Bool := false
  /-- The mutex has called the waiter's waker. -/
  granted : Bool := false
  completion : Completion := .pending
  deriving DecidableEq, Repr

structure State (ι : Type*) where
  locked : Bool := false
  waiters : List ι := []
  attempts : ι → Attempt := fun _ => {}

variable {ι : Type*} [DecidableEq ι]

namespace Attempt

variable (attempt : Attempt)

/-- `TimeoutTimer::completeTimeout`. -/
def completeTimeout : Attempt :=
  if attempt.completion = .pending then { attempt with completion := .timeoutWon } else attempt

/-- `TimeoutTimer::timeouted`. -/
def timeouted : Bool := attempt.completion = .timeoutWon

/-- `TimeoutTimer::cancel`. -/
def cancel : Attempt :=
  if attempt.completion = .pending then { attempt with completion := .operationWon } else attempt

def cancelWaiter : Attempt := { attempt with active := false }

/-- `await_resume` of the awaitable, or of the wrapper where there is a timer. -/
def await_resume : Attempt :=
  if attempt.timeouted then { attempt.cancelWaiter with phase := .timedOut }
  else { attempt.cancel.cancelWaiter with phase := .holding }

end Attempt

namespace State

variable (state : State ι)

def modify (i : ι) (f : Attempt → Attempt) : State ι :=
  { state with attempts := Function.update state.attempts i (f (state.attempts i)) }

def tryLock : Bool × State ι :=
  if state.locked then (false, state) else (true, { state with locked := true })

def enqueue (i : ι) : State ι := { state with waiters := state.waiters ++ [i] }

/-- The loop of `wakeNextWaiterIfUnlocked`; `picks` is the order in which the queue gives up the
waiters, which has to lead to an active one or to an empty queue. -/
def wakeLoop (state : State ι) : (picks : List ι) → Option (State ι)
  | [] => if state.waiters = [] then some state else none
  | waiter :: picks =>
    if waiter ∈ state.waiters then
      let state := { state with waiters := state.waiters.erase waiter }
      if (state.attempts waiter).active then
        let state := state.modify waiter fun attempt => { attempt with active := false }
        match state.tryLock with
        | (true, state) => some (state.modify waiter fun attempt => { attempt with granted := true })
        | (false, state) =>
          some ((state.modify waiter fun attempt => { attempt with active := true }).enqueue waiter)
      else wakeLoop state picks
    else none

def wakeNextWaiterIfUnlocked (picks : List ι) : Option (State ι) :=
  if state.locked then some state else state.wakeLoop picks

/-- The awaitable's waiter is made and put into the queue. -/
def enqueueWaiter (i : ι) : State ι :=
  (state.modify i fun attempt => { attempt with phase := .suspended, active := true }).enqueue i

end State

inductive Call (ι : Type*)
  /-- `await_ready`, and `await_resume` where it answers `true`. -/
  | lock (i : ι) (timed : Bool)
  /-- `await_suspend`; with a timer, whether the timer could be added. -/
  | suspend (i : ι) (timerAdded : Bool) (picks : List ι)
  /-- `await_suspend` of the wrapper in a task without a scheduler. -/
  | suspendUnbound (i : ι)
  | unlock (i : ι) (picks : List ι)
  | handleTimeout (i : ι)
  /-- The task runs on, with `await_resume`. -/
  | resume (i : ι)

namespace State

variable (state : State ι)

/-- The state after a call, where the call can be made. -/
def call : Call ι → Option (State ι)
  | .lock i timed =>
    if (state.attempts i).phase = .idle then
      match state.tryLock with
      | (true, state) =>
        some (state.modify i fun attempt => { attempt with timed }.await_resume)
      | (false, state) => some (state.modify i fun attempt => { attempt with timed, phase := .refused })
    else none
  | .suspend i timerAdded picks =>
    if (state.attempts i).phase = .refused then
      ((state.enqueueWaiter i).wakeNextWaiterIfUnlocked picks).map fun state =>
        if (state.attempts i).timed ∧ timerAdded = false then
          state.modify i Attempt.completeTimeout
        else state
    else none
  | .suspendUnbound i =>
    if (state.attempts i).phase = .refused ∧ (state.attempts i).timed then
      some (state.modify i fun attempt => { attempt.completeTimeout with phase := .suspended })
    else none
  | .unlock i picks =>
    if (state.attempts i).phase = .holding then
      State.wakeNextWaiterIfUnlocked
        { state.modify i (fun attempt => { attempt with phase := .released }) with locked := false }
        picks
    else none
  | .handleTimeout i =>
    if (state.attempts i).phase = .suspended ∧ (state.attempts i).timed then
      some (state.modify i Attempt.completeTimeout)
    else none
  | .resume i =>
    if (state.attempts i).phase = .suspended ∧
        ((state.attempts i).granted ∨ (state.attempts i).timeouted) then
      some (state.modify i Attempt.await_resume)
    else none

end State

end Galay.Kernel.AsyncMutex
