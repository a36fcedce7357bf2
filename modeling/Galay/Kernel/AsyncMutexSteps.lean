import Mathlib.Data.List.Nodup

/-!
# The asynchronous mutex, one atomic operation at a time

`lock`, `await_suspend`, `unlock`, `wakeNextWaiterIfUnlocked` and `cancelWaiter` of
`galay-kernel/async/async_mutex.h`, with the threads `τ` that are inside of them; `ι` names the
attempts to lock. A suspended attempt can time out at any moment.
-/

namespace Galay.Kernel.AsyncMutex.Steps

/-- Where an attempt is. -/
inductive Phase
  | idle
  | refused
  | suspended
  | holding
  | released
  /-- In `await_resume` after `markTimeout`. -/
  | timingOut
  /-- Its task has run on with a timeout. -/
  | timedOut
  deriving DecidableEq, Repr

/-- Where a thread is in `wakeNextWaiterIfUnlocked`. -/
inductive ThreadPc (ι : Type*)
  | outside
  | loading
  | dequeuing
  /-- Before the exchange of `active`. -/
  | deactivating (waiter : ι)
  | locking (waiter : ι)
  | reactivating (waiter : ι)
  | requeueing (waiter : ι)
  deriving DecidableEq, Repr

structure State (τ ι : Type*) where
  locked : Bool := false
  waiters : List ι := []
  active : ι → Bool := fun _ => false
  granted : ι → Bool := fun _ => false
  phase : ι → Phase := fun _ => .idle
  threads : τ → ThreadPc ι := fun _ => .outside

inductive Event (τ ι : Type*)
  /-- `await_ready`. -/
  | lock (i : ι)
  /-- `await_suspend` up to the queue. -/
  | suspend (t : τ) (i : ι)
  /-- The store of `unlock`. -/
  | unlock (t : τ) (i : ι)
  | load (t : τ)
  /-- The queue gives up a waiter, or appears empty. -/
  | dequeue (t : τ) (waiter : Option ι)
  | deactivate (t : τ)
  | tryLock (t : τ)
  | reactivate (t : τ)
  | requeue (t : τ)
  /-- `cancelWaiter` of `markTimeout`. -/
  | markTimeout (i : ι)
  /-- `cancelWaiter` of `await_resume` after a timeout. -/
  | resumeTimedOut (i : ι)
  /-- `cancelWaiter` of `await_resume` after a grant. -/
  | resumeGranted (i : ι)

namespace State

variable {τ ι : Type*} [DecidableEq τ] [DecidableEq ι] (state : State τ ι)

def goto (t : τ) (pc : ThreadPc ι) : State τ ι :=
  { state with threads := Function.update state.threads t pc }

def setPhase (i : ι) (phase : Phase) : State τ ι :=
  { state with phase := Function.update state.phase i phase }

def setActive (i : ι) (active : Bool) : State τ ι :=
  { state with active := Function.update state.active i active }

/-- The state after a step, where the step can be made. -/
def step : Event τ ι → Option (State τ ι)
  | .lock i =>
    if state.phase i = .idle then
      some (if state.locked then state.setPhase i .refused
        else { state.setPhase i .holding with locked := true })
    else none
  | .suspend t i =>
    if state.threads t = .outside ∧ state.phase i = .refused then
      some ((({ state with waiters := state.waiters ++ [i] }.setActive i true).setPhase i
        .suspended).goto t .loading)
    else none
  | .unlock t i =>
    if state.threads t = .outside ∧ state.phase i = .holding then
      some ({ state.setPhase i .released with locked := false }.goto t .loading)
    else none
  | .load t =>
    match state.threads t with
    | .loading => some (state.goto t (if state.locked then .outside else .dequeuing))
    | _ => none
  | .dequeue t waiter =>
    match state.threads t, waiter with
    | .dequeuing, none => if state.waiters = [] then some (state.goto t .outside) else none
    | .dequeuing, some waiter =>
      if waiter ∈ state.waiters then
        some ({ state with waiters := state.waiters.erase waiter }.goto t (.deactivating waiter))
      else none
    | _, _ => none
  | .deactivate t =>
    match state.threads t with
    | .deactivating waiter =>
      some (if state.active waiter then (state.setActive waiter false).goto t (.locking waiter)
        else state.goto t .dequeuing)
    | _ => none
  | .tryLock t =>
    match state.threads t with
    | .locking waiter =>
      some (if state.locked then state.goto t (.reactivating waiter)
        else { state.goto t .outside with
          locked := true
          granted := Function.update state.granted waiter true })
    | _ => none
  | .reactivate t =>
    match state.threads t with
    | .reactivating waiter => some ((state.setActive waiter true).goto t (.requeueing waiter))
    | _ => none
  | .requeue t =>
    match state.threads t with
    | .requeueing waiter =>
      some ({ state with waiters := state.waiters ++ [waiter] }.goto t .outside)
    | _ => none
  | .markTimeout i =>
    if state.phase i = .suspended then some ((state.setActive i false).setPhase i .timingOut)
    else none
  | .resumeTimedOut i =>
    if state.phase i = .timingOut then some ((state.setActive i false).setPhase i .timedOut)
    else none
  | .resumeGranted i =>
    if state.phase i = .suspended ∧ state.granted i then
      some ((state.setActive i false).setPhase i .holding)
    else none

end State

end Galay.Kernel.AsyncMutex.Steps
