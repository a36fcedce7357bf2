import Galay.Rpc.Base
import Galay.Utils.CircuitBreaker
import Galay.Utils.RateLimiter

/-!
# Governance of calls (`galay-rpc/kernel/rpc_policy.h`)

`RpcGovernanceController` puts a rate limiter behind a circuit breaker. The calls are atomic.
-/

namespace Galay.Rpc

open Galay.Utils

structure RpcRateLimitPolicy where
  enabled : Bool := false
  capacity : Nat := 1024
  refillPerSecond : Rat := 1024

structure RpcCircuitBreakerPolicy where
  enabled : Bool := false
  failureThreshold : Nat := 5
  successThreshold : Nat := 1
  halfOpenMaxRequests : Nat := 1
  /-- In seconds. -/
  resetTimeout : Int := 30

structure RpcGovernancePolicy where
  rateLimit : RpcRateLimitPolicy := {}
  circuitBreaker : RpcCircuitBreakerPolicy := {}

def makeBreakerConfig (policy : RpcCircuitBreakerPolicy) : CircuitBreakerConfig where
  failureThreshold := policy.failureThreshold
  successThreshold := policy.successThreshold
  halfOpenMaxRequests := policy.halfOpenMaxRequests
  resetTimeout := policy.resetTimeout

structure RpcGovernanceController where
  policy : RpcGovernancePolicy
  semaphore : CountingSemaphore
  bucket : TokenBucketLimiter
  breaker : BasicCircuitBreaker
  acquiredRatePermits : Nat := 0
  openObserved : Bool := false

def circuitOpen : RpcError := ⟨.CIRCUIT_OPEN, "RPC circuit breaker is open"⟩

def rateLimited : RpcError := ⟨.RATE_LIMITED, "RPC rate limited"⟩

namespace RpcGovernanceController

section
variable (rounding : RateRounding)

def new (policy : RpcGovernancePolicy) (now : Int) : RpcGovernanceController where
  policy := policy
  semaphore := ⟨policy.rateLimit.capacity⟩
  bucket := .new rounding policy.rateLimit.refillPerSecond policy.rateLimit.capacity now
  breaker := .new (makeBreakerConfig policy.circuitBreaker)

variable (controller : RpcGovernanceController)

/-- The part of `tryAcquire` that is behind the breaker. -/
def acquireRate (now : Int) : Except RpcError Unit × RpcGovernanceController :=
  if controller.policy.rateLimit.enabled then
    let (acquired, controller) :=
      if 0 < controller.policy.rateLimit.refillPerSecond then
        let (acquired, bucket) := controller.bucket.tryAcquire rounding 1 now
        (acquired, { controller with bucket })
      else
        let (acquired, semaphore) := controller.semaphore.tryAcquire 1
        (acquired, { controller with semaphore })
    if acquired then
      (.ok (), { controller with acquiredRatePermits := controller.acquiredRatePermits + 1 })
    else (.error rateLimited, controller)
  else (.ok (), { controller with acquiredRatePermits := controller.acquiredRatePermits + 1 })

def tryAcquire (now : Int) : Except RpcError Unit × RpcGovernanceController :=
  if controller.policy.circuitBreaker.enabled ∧ controller.breaker.state = .Open ∧
      ¬ controller.openObserved then
    (.error circuitOpen, { controller with openObserved := true })
  else if controller.policy.circuitBreaker.enabled then
    let (allowed, breaker) := controller.breaker.allowRequest now
    let controller : RpcGovernanceController := { controller with breaker }
    if allowed then controller.acquireRate rounding now else (.error circuitOpen, controller)
  else controller.acquireRate rounding now

end

variable (controller : RpcGovernanceController)

def onSuccess : RpcGovernanceController :=
  if controller.policy.circuitBreaker.enabled then
    let breaker := controller.breaker.onSuccess
    { controller with
      breaker
      openObserved := if breaker.state = .Closed then false else controller.openObserved }
  else controller

def onFailure (now : Int) : RpcGovernanceController :=
  if controller.policy.circuitBreaker.enabled then
    let breaker := controller.breaker.onFailure now
    { controller with
      breaker
      openObserved := if breaker.state = .Open then false else controller.openObserved }
  else controller

def release : RpcGovernanceController :=
  if 0 < controller.acquiredRatePermits then
    let controller : RpcGovernanceController :=
      { controller with acquiredRatePermits := controller.acquiredRatePermits - 1 }
    if controller.policy.rateLimit.enabled ∧ controller.policy.rateLimit.refillPerSecond ≤ 0 then
      { controller with semaphore := controller.semaphore.release 1 }
    else controller
  else controller

end RpcGovernanceController

end Galay.Rpc
