import Galay.Kernel.AsyncMutex

/-!
# The asynchronous waiter (`galay-kernel/async/async_waiter.h`, `core/timeout.hpp`)

One waiter, the task that waits on it and the timer of the wait. Each call is one step. A waiter is
used for one wait; the value that a wait takes out is not looked at again. The wakers of one task are
all the same, so a waker is set or empty.
-/

namespace Galay.Kernel.AsyncWaiter

open AsyncMutex (Completion)

/-- `AsyncWaiter<T>` and `AsyncWaiter<void>`. -/
inductive Kind
  | value
  | void
  deriving DecidableEq, Repr

inductive AsyncWaiterState
  | kEmpty
  | kWaiting
  | kReady
  deriving DecidableEq, Repr

/-- What `co_await` gives: the value, nothing, or `IOError(kTimeout, 0)`. -/
inductive Outcome (α : Type)
  | value (value : α)
  | done
  | timeout
  deriving DecidableEq, Repr

/-- Where the task is. -/
inductive Phase (α : Type)
  | idle
  /-- `await_ready` has answered `false`. -/
  | refused
  | suspended
  | completed (outcome : Outcome α)
  deriving DecidableEq, Repr

/-- `DeferredWaker::State`. -/
inductive Gate
  | kArming
  | kArmed
  | kPending
  | kIssued
  deriving DecidableEq, Repr

/-- The members of the waiter, of the awaitable with its timer, and of the task. -/
structure State (α : Type) where
  m_result : Option α := none
  m_state : AsyncWaiterState := .kEmpty
  m_notified : Bool := false
  m_ready : Bool := false
  m_waker : Bool := false
  timed : Bool := false
  /-- `m_result` of the awaitable is the timeout error. -/
  timeoutMarked : Bool := false
  completion : Completion := .pending
  gate : Gate := .kArming
  timerWaker : Bool := false
  timerAdded : Bool := false
  scheduler : Bool := true
  phase : Phase α := .idle
  m_queued : Bool := false
  m_done : Bool := false
  deriving DecidableEq, Repr

variable {α : Type}

namespace State

variable (kind : Kind) (state : State α)

/-! ## The task and its wakers -/

/-- `requestTaskResumeState`; `taken` says whether the scheduler takes the task. -/
def requestTaskResume (taken : Bool) : State α :=
  if !state.scheduler ∨ state.m_done ∨ state.m_queued then state
  else { state with m_queued := taken }

def wakeUp (waker taken : Bool) : State α :=
  if waker then state.requestTaskResume taken else state

/-! ## The timer -/

/-- Whether the timeout has won, which is when a wake-up is due. -/
def completeTimeout : Bool × State α :=
  if state.completion = .pending then (true, { state with completion := .timeoutWon })
  else (false, state)

def timeouted : Bool := state.completion = .timeoutWon

def cancel : State α :=
  if state.completion = .pending then { state with completion := .operationWon } else state

def requestWake (taken : Bool) : State α :=
  match state.gate with
  | .kArming => { state with gate := .kPending }
  | .kArmed => { state with gate := .kIssued }.wakeUp state.timerWaker taken
  | _ => state

/-- `handleTimeout` and `timeoutNow`. -/
def handleTimeout (taken : Bool) : State α :=
  match state.completeTimeout with
  | (true, state) => state.requestWake taken
  | (false, state) => state

def armWaker : Bool × State α :=
  match state.gate with
  | .kArming => (true, { state with gate := .kArmed })
  | .kPending => (false, { state with gate := .kIssued })
  | _ => (false, state)

/-! ## The waiter -/

/-- Whether the notification is the first, whether it asks for the task, and the state after it. -/
def notify (value : α) (taken : Bool) : Bool × Bool × State α :=
  if state.m_notified then (false, false, state)
  else
    let state := { state with m_notified := true }
    let state := match kind with
      | .value => { state with m_result := some value }
      | .void => state
    let state := { state with m_ready := true }
    let previous := state.m_state
    let state := { state with m_state := .kReady }
    if previous = .kWaiting then (true, state.m_waker, state.wakeUp state.m_waker taken)
    else (true, false, state)

/-- `await_suspend` of the awaitable. -/
def awaitSuspend : Bool × State α :=
  let state := { state with m_waker := true }
  if state.m_ready then (false, state)
  else if state.m_state = .kEmpty then (true, { state with m_state := .kWaiting })
  else (false, state)

/-- `markTimeout`; the awaitable of a value has none, and nobody reads what is marked there. -/
def markTimeout : State α :=
  match kind with
  | .value => state
  | .void =>
    let state := { state with timeoutMarked := true }
    if state.m_state = .kWaiting then { state with m_state := .kEmpty, m_waker := false } else state

/-- `await_resume` of the awaitable. -/
def awaitResume : State α :=
  match kind with
  | .value =>
    match state.m_result with
    | some value => { state with phase := .completed (.value value) }
    | none => { state with phase := .completed .timeout }
  | .void =>
    { state with
      m_waker := false
      phase := .completed (if state.timeoutMarked then .timeout else .done) }

/-- `await_resume` of the wrapper, where there is a timer. -/
def resumeWait : State α :=
  if state.timed then
    let timedOut := state.timeouted
    let state := { state with timerWaker := false }
    if timedOut then (state.markTimeout kind).awaitResume kind
    else state.cancel.awaitResume kind
  else state.awaitResume kind

/-- `await_suspend` with a timer, up to `armWaker`. -/
def suspendTimed (timerAdded : Bool) : Bool × State α :=
  let state := { state with timerWaker := true }
  if !state.scheduler then (false, state.completeTimeout.2.markTimeout kind)
  else
    match state.awaitSuspend with
    | (false, state) => (false, state.cancel)
    | (true, state) =>
      let state := { state with timerAdded }
      (if timerAdded then state else state.handleTimeout false).armWaker

/-- The task waits, or goes on at once. -/
def suspend (timerAdded : Bool) : State α :=
  match if state.timed then state.suspendTimed kind timerAdded else state.awaitSuspend with
  | (true, state) => { state with phase := .suspended }
  | (false, state) => state.resumeWait kind

end State

inductive Call (α : Type)
  /-- `co_await` up to `await_ready`, and `await_resume` where it answers `true`. -/
  | wait (timed : Bool)
  /-- `await_suspend`; with a timer, whether it could be added. -/
  | suspend (timerAdded : Bool)
  | notify (value : α) (taken : Bool)
  /-- The timer fires. -/
  | fire (taken : Bool)
  /-- The task is taken out of its queue and runs on. -/
  | resume
  /-- The task ends. -/
  | finish

namespace State

variable (kind : Kind) (state : State α)

/-- The state after a call, where the call can be made. -/
def call : Call α → Option (State α)
  | .wait timed =>
    match state.phase with
    | .idle =>
      let state := { state with timed }
      some (if state.m_ready then state.resumeWait kind else { state with phase := .refused })
    | _ => none
  | .suspend timerAdded =>
    match state.phase with
    | .refused => some (state.suspend kind timerAdded)
    | _ => none
  | .notify value taken => some (state.notify kind value taken).2.2
  | .fire taken => if state.timerAdded then some (state.handleTimeout taken) else none
  | .resume =>
    if state.m_queued then
      let state := { state with m_queued := false }
      match state.phase with
      | .suspended => some (state.resumeWait kind)
      | _ => some state
    else none
  | .finish =>
    match state.phase with
    | .completed _ => some { state with m_done := true }
    | _ => none

end State

end Galay.Kernel.AsyncWaiter
