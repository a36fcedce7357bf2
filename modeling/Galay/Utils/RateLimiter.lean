import Mathlib.Algebra.Order.Ring.Rat

/-!
# Rate limiters (`galay-utils/tool/rate_limiter.hpp`)

The counting semaphore and the token bucket, with atomic calls. A call reads the clock once. What the
token bucket computes in floating point is a parameter.
-/

namespace Galay.Utils

def kRateLimiterPrecision : Int := 1000000

def int64Max : Int := 2 ^ 63 - 1

def toRateLimiterUnits (value : Nat) : Int :=
  if int64Max / kRateLimiterPrecision < value then int64Max else value * kRateLimiterPrecision

def saturatingAddUnits (lhs rhs : Int) : Int :=
  if 0 < rhs ∧ int64Max - rhs < lhs then int64Max else lhs + rhs

/-- The products of the limiter that are rounded from floating point. -/
structure RateRounding where
  /-- A rate in units. -/
  toRateLimiterUnits : Rat → Int
  /-- The units that the elapsed ticks add at a rate. -/
  tokensToAdd : Int → Int → Int

structure CountingSemaphore where
  count : Nat
  deriving DecidableEq, Repr

namespace CountingSemaphore

variable (semaphore : CountingSemaphore)

def tryAcquire (count : Nat) : Bool × CountingSemaphore :=
  if count ≤ semaphore.count then (true, { semaphore with count := semaphore.count - count })
  else (false, semaphore)

def release (count : Nat) : CountingSemaphore := { semaphore with count := semaphore.count + count }

end CountingSemaphore

structure TokenBucketLimiter where
  rateUnits : Int
  capacityUnits : Int
  tokens : Int
  lastRefillTime : Int
  deriving DecidableEq, Repr

namespace TokenBucketLimiter

variable (rounding : RateRounding) (bucket : TokenBucketLimiter)

def new (rate : Rat) (capacity : Nat) (now : Int) : TokenBucketLimiter where
  rateUnits := rounding.toRateLimiterUnits rate
  capacityUnits := toRateLimiterUnits capacity
  tokens := toRateLimiterUnits capacity
  lastRefillTime := now

def refill (now : Int) : TokenBucketLimiter :=
  if bucket.lastRefillTime < now then
    if bucket.rateUnits ≤ 0 then { bucket with lastRefillTime := now }
    else
      let tokensToAdd := rounding.tokensToAdd (now - bucket.lastRefillTime) bucket.rateUnits
      if tokensToAdd ≤ 0 then bucket
      else
        { bucket with
          lastRefillTime := now
          tokens := min bucket.capacityUnits (saturatingAddUnits bucket.tokens tokensToAdd) }
  else bucket

def tryAcquire (tokens : Nat) (now : Int) : Bool × TokenBucketLimiter :=
  let bucket := bucket.refill rounding now
  let needed := toRateLimiterUnits tokens
  if needed = 0 then (true, bucket)
  else if needed ≤ bucket.tokens then (true, { bucket with tokens := bucket.tokens - needed })
  else (false, bucket)

end TokenBucketLimiter

end Galay.Utils
