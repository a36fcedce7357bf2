import Mathlib.Data.List.Count

/-!
# The circuit breaker (`galay-utils/tool/circuit_breaker.hpp`)

`BasicCircuitBreaker` with atomic calls. Times are nanoseconds; a call reads the clock once.
-/

namespace Galay.Utils

inductive CircuitState
  | Closed
  | Open
  | HalfOpen
  deriving DecidableEq, Repr

structure CircuitBreakerConfig where
  failureThreshold : Nat := 5
  successThreshold : Nat := 3
  halfOpenMaxRequests : Nat := 1
  /-- In seconds. -/
  resetTimeout : Int := 30
  deriving DecidableEq, Repr

def normalizeConfig (config : CircuitBreakerConfig) : CircuitBreakerConfig where
  failureThreshold := if config.failureThreshold = 0 then 1 else config.failureThreshold
  successThreshold := if config.successThreshold = 0 then 1 else config.successThreshold
  halfOpenMaxRequests := if config.halfOpenMaxRequests = 0 then 1 else config.halfOpenMaxRequests
  resetTimeout := if config.resetTimeout < 0 then 0 else config.resetTimeout

def timeoutToNs (timeout : Int) : Int := timeout * 1000000000

/-- The configuration is a normalized one. -/
structure BasicCircuitBreaker where
  config : CircuitBreakerConfig
  halfOpenMaxRequests_pos : 0 < config.halfOpenMaxRequests
  state : CircuitState := .Closed
  failureCount : Nat := 0
  successCount : Nat := 0
  halfOpenInFlight : Nat := 0
  lastFailureTimeNs : Int := 0

namespace BasicCircuitBreaker

def new (config : CircuitBreakerConfig) : BasicCircuitBreaker where
  config := normalizeConfig config
  halfOpenMaxRequests_pos := by
    unfold normalizeConfig
    simp only
    split <;> omega

variable (breaker : BasicCircuitBreaker)

def tryAcquireHalfOpenProbe : Bool × BasicCircuitBreaker :=
  if breaker.halfOpenInFlight < breaker.config.halfOpenMaxRequests then
    (true, { breaker with halfOpenInFlight := breaker.halfOpenInFlight + 1 })
  else (false, breaker)

def releaseHalfOpenProbe : BasicCircuitBreaker :=
  { breaker with halfOpenInFlight := breaker.halfOpenInFlight - 1 }

/-- A change of the state with the counters set back. -/
def transition (state : CircuitState) : BasicCircuitBreaker :=
  { breaker with state, successCount := 0, failureCount := 0, halfOpenInFlight := 0 }

/-- The time to try again has come. -/
def TimedOut (now : Int) : Prop :=
  breaker.lastFailureTimeNs ≤ now ∧
    timeoutToNs breaker.config.resetTimeout ≤ now - breaker.lastFailureTimeNs

instance (now : Int) : Decidable (breaker.TimedOut now) := inferInstanceAs (Decidable (_ ∧ _))

def allowRequest (now : Int) : Bool × BasicCircuitBreaker :=
  match breaker.state with
  | .Closed => (true, breaker)
  | .Open =>
    if breaker.TimedOut now then (breaker.transition .HalfOpen).tryAcquireHalfOpenProbe
    else (false, breaker)
  | .HalfOpen => breaker.tryAcquireHalfOpenProbe

def onSuccess : BasicCircuitBreaker :=
  match breaker.state with
  | .Closed => { breaker with failureCount := 0 }
  | .HalfOpen =>
    let breaker := breaker.releaseHalfOpenProbe
    let count := breaker.successCount + 1
    let breaker : BasicCircuitBreaker := { breaker with successCount := count }
    if breaker.config.successThreshold ≤ count then breaker.transition .Closed else breaker
  | .Open => breaker

def onFailure (now : Int) : BasicCircuitBreaker :=
  let breaker : BasicCircuitBreaker := { breaker with lastFailureTimeNs := now }
  match breaker.state with
  | .Closed =>
    let count := breaker.failureCount + 1
    let breaker : BasicCircuitBreaker := { breaker with failureCount := count }
    if breaker.config.failureThreshold ≤ count then { breaker with state := .Open } else breaker
  | .HalfOpen => breaker.releaseHalfOpenProbe.transition .Open
  | .Open => breaker

/-! ## What a call does -/

theorem allowRequest_open (hst : breaker.state = .Open) (htimeout : breaker.TimedOut now) :
    breaker.allowRequest now =
      (true, { breaker.transition .HalfOpen with halfOpenInFlight := 0 + 1 }) := by
  have hroom : (breaker.transition .HalfOpen).halfOpenInFlight <
      (breaker.transition .HalfOpen).config.halfOpenMaxRequests := breaker.halfOpenMaxRequests_pos
  simp only [allowRequest, hst, if_pos htimeout, tryAcquireHalfOpenProbe, if_pos hroom]
  rfl

variable (now : Int)

section

variable (hst : breaker.state = .HalfOpen)

include hst

theorem allowRequest_halfOpen
    (hroom : breaker.halfOpenInFlight < breaker.config.halfOpenMaxRequests) :
    breaker.allowRequest now =
      (true, { breaker with halfOpenInFlight := breaker.halfOpenInFlight + 1 }) := by
  have hcall : breaker.allowRequest now = breaker.tryAcquireHalfOpenProbe := by
    simp only [allowRequest, hst]
  rw [hcall]
  exact if_pos hroom

theorem onSuccess_closes (hthr : breaker.config.successThreshold ≤ breaker.successCount + 1) :
    breaker.onSuccess = breaker.transition .Closed := by
  rw [onSuccess, hst]
  exact if_pos hthr

theorem onSuccess_stays (hthr : ¬ breaker.config.successThreshold ≤ breaker.successCount + 1) :
    breaker.onSuccess =
      { breaker.releaseHalfOpenProbe with successCount := breaker.successCount + 1 } := by
  rw [onSuccess, hst]
  exact if_neg hthr

end

theorem onSuccess_of_ne_halfOpen (hst : breaker.state ≠ .HalfOpen) :
    breaker.onSuccess.state = breaker.state ∧
      breaker.onSuccess.halfOpenInFlight = breaker.halfOpenInFlight := by
  unfold onSuccess
  split
  · exact ⟨rfl, rfl⟩
  · next hhalf => exact absurd hhalf hst
  exact ⟨rfl, rfl⟩

theorem onFailure_halfOpen (hst : breaker.state = .HalfOpen) :
    (breaker.onFailure now).halfOpenInFlight = 0 := by
  simp only [onFailure, hst]
  rfl

theorem onFailure_of_ne_halfOpen (hst : breaker.state ≠ .HalfOpen) :
    (breaker.onFailure now).halfOpenInFlight = breaker.halfOpenInFlight := by
  unfold onFailure
  simp only
  split
  · split <;> rfl
  · next hhalf => exact absurd hhalf hst
  rfl

theorem onFailure_ne_halfOpen : (breaker.onFailure now).state ≠ .HalfOpen := by
  unfold onFailure
  simp only
  split
  · next hst =>
    split
    · nofun
    intro hhalf
    exact absurd (hst.symm.trans hhalf) nofun
  · nofun
  next hst =>
  intro hhalf
  exact absurd (hst.symm.trans hhalf) nofun

theorem allowRequest_config : (breaker.allowRequest now).2.config = breaker.config := by
  unfold allowRequest tryAcquireHalfOpenProbe
  split
  · rfl
  · split
    · split <;> rfl
    rfl
  split <;> rfl

theorem onSuccess_config : breaker.onSuccess.config = breaker.config := by
  unfold onSuccess
  split
  · rfl
  · simp only
    split <;> rfl
  rfl

theorem onFailure_config : (breaker.onFailure now).config = breaker.config := by
  unfold onFailure
  simp only
  split
  · split <;> rfl
  · rfl
  rfl

end BasicCircuitBreaker

end Galay.Utils
