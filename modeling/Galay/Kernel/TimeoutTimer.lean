import Mathlib.Logic.Relation
import Mathlib.Logic.Function.Basic

/-!
# Operations against timeouts (`galay-kernel/core/timeout.hpp`)

The callers of one `TimeoutTimer` and of its `DeferredWaker`, one atomic operation at a time. `ι` names
the calls. What is done between two atomic operations is done with the first of them. A weak
compare-exchange may fail without a reason; either way the loop goes on with the value that it has
found.
-/

namespace Galay.Kernel.TimeoutTimer

inductive Completion
  | pending
  | operationInFlight
  | timeoutRequested
  | operationWon
  | timeoutWon
  deriving DecidableEq, Repr

/-- `DeferredWaker::State`. -/
inductive WakerState
  | arming
  | armed
  | pending
  | issued
  deriving DecidableEq, Repr

inductive OperationAbort
  | rearmed
  | completed
  deriving DecidableEq, Repr

inductive Winner
  | operation
  | timeout
  deriving DecidableEq, Repr

/-- Where a call is. A value is the one that a compare-exchange expects. -/
inductive Pc
  | idle
  /-- In `tryCompleteOperation`, which `cancel` may have called. -/
  | completing (cancels : Bool)
  /-- Before `Timer::cancel`, with what is said afterwards. -/
  | stopping (won : Bool)
  -- `tryBeginOperation`
  | beginning
  | beginExchange
  /-- The operation has been started, and is to be committed or aborted. -/
  | started
  -- `commitOperation`
  | committing
  | commitExchange (expected : Completion)
  -- `abortOperation`
  | aborting
  | abortExchange (expected : Completion)
  /-- The timeout has won: before its flag is set. -/
  | abortMark
  | aborted (result : OperationAbort)
  -- `handleTimeout` and `timeoutNow`
  | timing
  | timeoutExchange (expected : Completion)
  | timeoutMark
  /-- Before `Timer::handleTimeout`. -/
  | timeoutDone (won : Bool)
  /-- The call has decided for the winner; it may go on to `requestWake`. -/
  | decided (winner : Winner)
  -- `requestWake`
  | waking
  | wakeExchange (expected : WakerState)
  | wakeUp
  -- `arm`
  | arming
  | armStore
  | finished
  deriving DecidableEq, Repr

/-- What a call does, from its beginning. A call that has started an operation commits or aborts it. -/
inductive Role
  | tryCompleteOperation
  | tryBeginOperation
  | handleTimeout
  | cancel
  | arm
  deriving DecidableEq, Repr

def Role.pc : Role → Pc
  | .tryCompleteOperation => .completing false
  | .tryBeginOperation => .beginning
  | .handleTimeout => .timing
  | .cancel => .completing true
  | .arm => .arming

structure State (ι : Type*) where
  calls : ι → Pc := fun _ => .idle
  completion : Completion := .pending
  waker : WakerState := .arming
  -- `m_flag`
  kDone : Bool := false
  kCancel : Bool := false
  kTimeout : Bool := false
  /-- How often `wakeUp` has been called. -/
  wakeUps : Nat := 0
  -- The rest is for the record.
  canceller : Option ι := none
  armer : Option ι := none
  armResult : Option Bool := none
  /-- Who has started the operation in flight. -/
  owner : Option ι := none
  /-- What has been written into `m_completion` as the winner. -/
  winners : List Winner := []
  /-- A timeout has been arbitrated. -/
  delivered : Bool := false
  /-- Who has called `requestWake` last. -/
  requester : Option ι := none
  /-- Whose compare-exchange has led to `wakeUp`. -/
  issuer : Option ι := none

/-! ## Loops -/

def afterBegin : Completion → Pc
  | .pending => .beginExchange
  | _ => .finished

def afterCommit : Completion → Pc
  | .operationInFlight => .commitExchange .operationInFlight
  | .timeoutRequested => .commitExchange .timeoutRequested
  | _ => .finished

def afterAbort : Completion → Pc
  | .operationInFlight => .abortExchange .operationInFlight
  | .timeoutRequested => .abortExchange .timeoutRequested
  | _ => .aborted .completed

def afterTimeout : Completion → Pc
  | .pending => .timeoutExchange .pending
  | .operationInFlight => .timeoutExchange .operationInFlight
  | _ => .timeoutDone false

def afterWake : WakerState → Pc
  | .arming => .wakeExchange .arming
  | .armed => .wakeExchange .armed
  | _ => .finished

variable {ι : Type*} [DecidableEq ι]

namespace State

/-- Where a loop goes on after a load, or after a weak compare-exchange that has failed. -/
def reload (state : State ι) : Pc → Option Pc
  | .beginning | .beginExchange => some (afterBegin state.completion)
  | .committing | .commitExchange _ => some (afterCommit state.completion)
  | .aborting | .abortExchange _ => some (afterAbort state.completion)
  | .timing | .timeoutExchange _ => some (afterTimeout state.completion)
  | .waking | .wakeExchange _ => some (afterWake state.waker)
  | _ => none

def setPc (state : State ι) (i : ι) (pc : Pc) : State ι :=
  { state with calls := Function.update state.calls i pc }

end State

/-- A timeout that leaves its loop has been arbitrated. -/
def arbitrates : Pc → Bool
  | .timeoutDone _ => true
  | _ => false

/-- One step of a call. -/
inductive Step (state : State ι) (i : ι) : State ι → Prop
  | call (role : Role) (h : state.calls i = .idle) (hcancel : role ≠ .cancel) (harm : role ≠ .arm) :
    Step state i (state.setPc i role.pc)
  | callCancel (h : state.calls i = .idle) (honce : state.canceller = none) :
    Step state i ({ state with canceller := some i }.setPc i Role.cancel.pc)
  | callArm (h : state.calls i = .idle) (honce : state.armer = none) :
    Step state i ({ state with armer := some i }.setPc i Role.arm.pc)
  | load {pc : Pc} (h : state.reload (state.calls i) = some pc) :
    Step state i ({ state with delivered := state.delivered || arbitrates pc }.setPc i pc)
  -- `tryCompleteOperation`
  | complete {cancels : Bool} (h : state.calls i = .completing cancels)
    (hpend : state.completion = .pending) :
    Step state i ({ state with
      completion := .operationWon, winners := state.winners ++ [Winner.operation] }.setPc i
        (.stopping (!cancels)))
  | lose {cancels : Bool} (h : state.calls i = .completing cancels)
    (hpend : state.completion ≠ .pending) :
    Step state i (state.setPc i (if cancels then .stopping false else .finished))
  | stop {won : Bool} (h : state.calls i = .stopping won) :
    Step state i ({ state with kCancel := true }.setPc i
      (if won then .decided .operation else .finished))
  -- `tryBeginOperation`, `commitOperation`, `abortOperation`
  | begin (h : state.calls i = .beginExchange) (hpend : state.completion = .pending) :
    Step state i ({ state with completion := .operationInFlight, owner := some i }.setPc i .started)
  | commit (h : state.calls i = .started) : Step state i (state.setPc i .committing)
  | abort (h : state.calls i = .started) : Step state i (state.setPc i .aborting)
  | commitExchange (h : state.calls i = .commitExchange state.completion) :
    Step state i ({ state with
      completion := .operationWon
      winners := state.winners ++ [Winner.operation]
      owner := none }.setPc i (.stopping true))
  | rearm (h : state.calls i = .abortExchange .operationInFlight)
    (hflight : state.completion = .operationInFlight) :
    Step state i ({ state with completion := .pending, owner := none }.setPc i (.aborted .rearmed))
  | abortRequested (h : state.calls i = .abortExchange .timeoutRequested)
    (hreq : state.completion = .timeoutRequested) :
    Step state i ({ state with
      completion := .timeoutWon
      winners := state.winners ++ [Winner.timeout]
      owner := none }.setPc i .abortMark)
  | markAborted (h : state.calls i = .abortMark) :
    Step state i ({ state with kTimeout := true }.setPc i (.decided .timeout))
  -- `completeTimeout`
  | win (h : state.calls i = .timeoutExchange .pending) (hpend : state.completion = .pending) :
    Step state i ({ state with
      completion := .timeoutWon
      winners := state.winners ++ [Winner.timeout]
      delivered := true }.setPc i .timeoutMark)
  | request (h : state.calls i = .timeoutExchange .operationInFlight)
    (hflight : state.completion = .operationInFlight) :
    Step state i ({ state with completion := .timeoutRequested, delivered := true }.setPc i
      (.timeoutDone false))
  | mark (h : state.calls i = .timeoutMark) :
    Step state i ({ state with kTimeout := true }.setPc i (.timeoutDone true))
  | done {won : Bool} (h : state.calls i = .timeoutDone won) :
    Step state i (if won then
        { state with kDone := true, requester := some i }.setPc i .waking
      else { state with kDone := true }.setPc i .finished)
  -- `requestWake`
  | requestWake {winner : Winner} (h : state.calls i = .decided winner) :
    Step state i ({ state with requester := some i }.setPc i .waking)
  | pend (h : state.calls i = .wakeExchange .arming) (harming : state.waker = .arming) :
    Step state i ({ state with waker := .pending }.setPc i .finished)
  | issue (h : state.calls i = .wakeExchange .armed) (harmed : state.waker = .armed) :
    Step state i ({ state with waker := .issued, issuer := some i }.setPc i .wakeUp)
  | wakeUp (h : state.calls i = .wakeUp) :
    Step state i ({ state with wakeUps := state.wakeUps + 1 }.setPc i .finished)
  -- `arm`
  | armed (h : state.calls i = .arming) (harming : state.waker = .arming) :
    Step state i ({ state with waker := .armed, armResult := some true }.setPc i .finished)
  | early (h : state.calls i = .arming) (hpend : state.waker = .pending) :
    Step state i (state.setPc i .armStore)
  | unarmed (h : state.calls i = .arming) (hwaker : state.waker = .armed ∨ state.waker = .issued) :
    Step state i ({ state with armResult := some false }.setPc i .finished)
  | consume (h : state.calls i = .armStore) :
    Step state i ({ state with waker := .issued, armResult := some false }.setPc i .finished)

def Runs : State ι → State ι → Prop := Relation.ReflTransGen fun a b => ∃ i, Step a i b

def Reachable (state : State ι) : Prop := Runs {} state

/-- No call is under way. -/
def Pc.atRest : Pc → Bool
  | .idle | .aborted _ | .decided _ | .finished => true
  | _ => false

def State.timeouted (state : State ι) : Bool := state.kTimeout

end Galay.Kernel.TimeoutTimer
