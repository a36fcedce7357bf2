import Galay.Rpc.Governance

/-!
# What is held on behalf of the outstanding calls

The probes and the permits of a governance controller, against the calls that have not reported and
the calls that have not been released. A probe is lost when the limiter refuses the call it was taken
for.
-/

namespace Galay.Rpc

open Galay.Utils

/-- A controller with the calls it has admitted. A call that has not reported yet is known by whether
it was admitted in the half-open state. -/
structure GovernanceLedger where
  controller : RpcGovernanceController
  unreported : List Bool := []
  unreleased : Nat := 0

inductive GovernanceCall
  | tryAcquire (now : Int)
  | onSuccess (probe : Bool)
  | onFailure (probe : Bool) (now : Int)
  | release
  deriving DecidableEq, Repr

namespace RpcGovernanceController

variable (rounding : RateRounding) (controller : RpcGovernanceController) (now : Int)

/-- The controller is in the half-open state. -/
def HalfOpen : Prop :=
  controller.policy.circuitBreaker.enabled ∧ controller.breaker.state = .HalfOpen

instance : Decidable controller.HalfOpen := inferInstanceAs (Decidable (_ ∧ _))

/-- The breaker lets a probe in. -/
def TakesProbe : Prop :=
  controller.policy.circuitBreaker.enabled ∧
    (controller.breaker.state = .Open ∧ controller.openObserved ∧ controller.breaker.TimedOut now ∨
      controller.breaker.state = .HalfOpen ∧
        controller.breaker.halfOpenInFlight < controller.breaker.config.halfOpenMaxRequests)

/-- The limiter has a permit. -/
def PermitAvailable : Prop :=
  controller.policy.rateLimit.enabled →
    if 0 < controller.policy.rateLimit.refillPerSecond then
      toRateLimiterUnits 1 ≤ (controller.bucket.refill rounding now).tokens
    else 1 ≤ controller.semaphore.count

end RpcGovernanceController

namespace GovernanceLedger

variable (rounding : RateRounding) (ledger : GovernanceLedger)

def call : GovernanceCall → GovernanceLedger
  | .tryAcquire now =>
    match ledger.controller.tryAcquire rounding now with
    | (.ok _, controller) =>
      { controller
        unreported := decide controller.HalfOpen :: ledger.unreported
        unreleased := ledger.unreleased + 1 }
    | (.error _, controller) => { ledger with controller }
  | .onSuccess probe =>
    { ledger with
      controller := ledger.controller.onSuccess
      unreported := ledger.unreported.erase probe }
  | .onFailure probe now =>
    { ledger with
      controller := ledger.controller.onFailure now
      unreported := ledger.unreported.erase probe }
  | .release =>
    { ledger with controller := ledger.controller.release, unreleased := ledger.unreleased - 1 }

/-- A call that was admitted reports once, and it is released once. -/
def Valid : GovernanceCall → Prop
  | .tryAcquire _ => True
  | .onSuccess probe => probe ∈ ledger.unreported
  | .onFailure probe _ => probe ∈ ledger.unreported
  | .release => 0 < ledger.unreleased

/-- A probe is taken only when the limiter has a permit for it. An outcome in the half-open state is
one of a probe, and no other probe is outstanding when it ends the state. -/
def Sound : GovernanceCall → Prop
  | .tryAcquire now =>
    ledger.controller.TakesProbe now → ledger.controller.PermitAvailable rounding now
  | .onSuccess probe =>
    ledger.controller.HalfOpen →
      (probe ∨ true ∉ ledger.unreported) ∧
        (ledger.controller.breaker.config.successThreshold ≤
          ledger.controller.breaker.successCount + 1 → true ∉ ledger.unreported.erase probe)
  | .onFailure probe _ => ledger.controller.HalfOpen → true ∉ ledger.unreported.erase probe
  | .release => True

end GovernanceLedger

/-- The states that a controller comes to by calls that are allowed. -/
inductive GovernanceRun (rounding : RateRounding) (policy : RpcGovernancePolicy)
    (Allowed : GovernanceLedger → GovernanceCall → Prop) : GovernanceLedger → Prop
  | new (now : Int) : GovernanceRun rounding policy Allowed { controller := .new rounding policy now }
  | call {ledger : GovernanceLedger} (next : GovernanceCall)
    (hrun : GovernanceRun rounding policy Allowed ledger) (hvalid : ledger.Valid next)
    (hallowed : Allowed ledger next) :
    GovernanceRun rounding policy Allowed (ledger.call rounding next)

/-! ## What an attempt does -/

namespace RpcGovernanceController

variable {rounding : RateRounding} {controller : RpcGovernanceController} {now : Int}

/-- The permits are the ones of the semaphore. -/
def UsesSemaphore (controller : RpcGovernanceController) : Prop :=
  controller.policy.rateLimit.enabled ∧ controller.policy.rateLimit.refillPerSecond ≤ 0

theorem permitAvailable_of_semaphore (now : Int)
    (hrefill : ¬ 0 < controller.policy.rateLimit.refillPerSecond)
    (hcount : 1 ≤ controller.semaphore.count) : controller.PermitAvailable rounding now := by
  intro _
  rw [if_neg hrefill]
  exact hcount

theorem acquireRate_granted (hpermit : controller.PermitAvailable rounding now) :
    ∃ semaphore bucket,
      controller.acquireRate rounding now =
        (.ok (), { controller with
          semaphore, bucket, acquiredRatePermits := controller.acquiredRatePermits + 1 }) ∧
      (controller.UsesSemaphore → semaphore.count + 1 = controller.semaphore.count) := by
  unfold acquireRate
  by_cases henabled : controller.policy.rateLimit.enabled
  · have hpermit := hpermit henabled
    by_cases hrefill : 0 < controller.policy.rateLimit.refillPerSecond
    · rw [if_pos hrefill] at hpermit
      have hneeded : toRateLimiterUnits 1 ≠ 0 := by decide
      simp only [henabled, if_true, if_pos hrefill, TokenBucketLimiter.tryAcquire, if_neg hneeded,
        if_pos hpermit]
      exact ⟨_, _, rfl, fun huses => absurd huses.2 (Rat.not_le.2 hrefill)⟩
    rw [if_neg hrefill] at hpermit
    simp only [henabled, if_true, if_neg hrefill, CountingSemaphore.tryAcquire, if_pos hpermit]
    exact ⟨_, _, rfl, fun _ => Nat.sub_add_cancel hpermit⟩
  simp only [henabled, Bool.false_eq_true, if_false]
  exact ⟨_, _, rfl, fun huses => absurd huses.1 henabled⟩

theorem acquireRate_refused (hpermit : ¬ controller.PermitAvailable rounding now) :
    ∃ bucket, controller.acquireRate rounding now =
      (.error rateLimited, { controller with bucket }) := by
  unfold PermitAvailable at hpermit
  rw [Classical.not_imp] at hpermit
  obtain ⟨henabled, hpermit⟩ := hpermit
  unfold acquireRate
  by_cases hrefill : 0 < controller.policy.rateLimit.refillPerSecond
  · rw [if_pos hrefill] at hpermit
    have hneeded : toRateLimiterUnits 1 ≠ 0 := by decide
    simp only [henabled, if_true, if_pos hrefill, TokenBucketLimiter.tryAcquire, if_neg hneeded,
      if_neg hpermit, Bool.false_eq_true, if_false]
    exact ⟨_, rfl⟩
  rw [if_neg hrefill] at hpermit
  simp only [henabled, if_true, if_neg hrefill, CountingSemaphore.tryAcquire, if_neg hpermit,
    Bool.false_eq_true, if_false]
  exact ⟨_, rfl⟩

theorem tryAcquire_allowed {breaker : BasicCircuitBreaker}
    (henabled : controller.policy.circuitBreaker.enabled)
    (hobserved : controller.breaker.state = .Open → controller.openObserved)
    (hallowed : controller.breaker.allowRequest now = (true, breaker)) :
    controller.tryAcquire rounding now = { controller with breaker }.acquireRate rounding now := by
  rw [tryAcquire, if_neg (fun h => h.2.2 (hobserved h.2.1)), if_pos henabled, hallowed]
  rfl

theorem tryAcquire_of_takesProbe (hprobe : controller.TakesProbe now) :
    ∃ breaker : BasicCircuitBreaker,
      controller.tryAcquire rounding now = { controller with breaker }.acquireRate rounding now ∧
      breaker.state = .HalfOpen ∧
      breaker.halfOpenInFlight =
        (if controller.breaker.state = .HalfOpen then controller.breaker.halfOpenInFlight else 0) +
          1 := by
  obtain ⟨henabled, ⟨hst, hobserved, htimeout⟩ | ⟨hst, hroom⟩⟩ := hprobe
  · have hallowed := controller.breaker.allowRequest_open hst htimeout
    have hhalf : controller.breaker.state ≠ .HalfOpen := by rw [hst]; nofun
    rw [if_neg hhalf]
    exact ⟨{ controller.breaker.transition .HalfOpen with halfOpenInFlight := 0 + 1 },
      tryAcquire_allowed henabled (fun _ => hobserved) hallowed, rfl, rfl⟩
  have hallowed := controller.breaker.allowRequest_halfOpen now hst hroom
  rw [if_pos hst]
  exact ⟨{ controller.breaker with
      halfOpenInFlight := controller.breaker.halfOpenInFlight + 1 },
    tryAcquire_allowed henabled (fun hopen => absurd (hst.symm.trans hopen) nofun) hallowed,
    hst, rfl⟩

theorem tryAcquire_of_closed
    (hclosed : controller.policy.circuitBreaker.enabled → controller.breaker.state = .Closed) :
    controller.tryAcquire rounding now = controller.acquireRate rounding now := by
  by_cases henabled : controller.policy.circuitBreaker.enabled
  · have hst := hclosed henabled
    refine tryAcquire_allowed henabled ?_ ?_
    · exact fun hopen => absurd (hst.symm.trans hopen) nofun
    simp only [BasicCircuitBreaker.allowRequest, hst]
  rw [tryAcquire, if_neg (fun h => henabled h.1), if_neg henabled]

theorem tryAcquire_of_not_takesProbe (hprobe : ¬ controller.TakesProbe now) :
    (∃ openObserved, controller.tryAcquire rounding now =
      (.error circuitOpen, { controller with openObserved })) ∨
    ¬ controller.HalfOpen ∧
      controller.tryAcquire rounding now = controller.acquireRate rounding now := by
  by_cases hfirst : controller.policy.circuitBreaker.enabled ∧ controller.breaker.state = .Open ∧
      ¬ controller.openObserved
  · exact .inl ⟨true, if_pos hfirst⟩
  by_cases henabled : controller.policy.circuitBreaker.enabled
  · cases hst : controller.breaker.state with
    | Closed =>
      exact .inr ⟨fun hhalf => absurd (hst.symm.trans hhalf.2) nofun,
        tryAcquire_of_closed (fun _ => hst)⟩
    | Open =>
      have hobserved : controller.openObserved := by
        by_contra hobserved
        exact hfirst ⟨henabled, hst, hobserved⟩
      have htimeout : ¬ controller.breaker.TimedOut now := fun htimeout =>
        hprobe ⟨henabled, .inl ⟨hst, hobserved, htimeout⟩⟩
      refine .inl ⟨controller.openObserved, ?_⟩
      rw [tryAcquire, if_neg hfirst, if_pos henabled]
      simp only [BasicCircuitBreaker.allowRequest, hst, if_neg htimeout, Bool.false_eq_true,
        if_false]
    | HalfOpen =>
    have hroom : ¬ controller.breaker.halfOpenInFlight <
        controller.breaker.config.halfOpenMaxRequests := fun hroom =>
      hprobe ⟨henabled, .inr ⟨hst, hroom⟩⟩
    refine .inl ⟨controller.openObserved, ?_⟩
    rw [tryAcquire, if_neg hfirst, if_pos henabled]
    simp only [BasicCircuitBreaker.allowRequest, hst,
      BasicCircuitBreaker.tryAcquireHalfOpenProbe, if_neg hroom, Bool.false_eq_true, if_false]
  exact .inr ⟨fun hhalf => henabled hhalf.1, tryAcquire_of_closed (fun h => absurd h henabled)⟩

end RpcGovernanceController

/-! ## The invariant -/

open GovernanceLedger RpcGovernanceController

/-- What is held is held for calls. -/
structure Accounted (ledger : GovernanceLedger) : Prop where
  probes : ledger.controller.breaker.halfOpenInFlight = ledger.unreported.count true
  idle : ¬ ledger.controller.HalfOpen → ledger.controller.breaker.halfOpenInFlight = 0
  permits : ledger.controller.acquiredRatePermits = ledger.unreleased
  semaphore : ledger.controller.UsesSemaphore →
    ledger.controller.semaphore.count + ledger.unreleased =
      ledger.controller.policy.rateLimit.capacity

variable {rounding : RateRounding} {ledger : GovernanceLedger}

theorem Accounted.unreported_of_not_halfOpen (h : Accounted ledger)
    (hhalf : ¬ ledger.controller.HalfOpen) : ledger.unreported.count true = 0 :=
  h.probes.symm.trans (h.idle hhalf)

/-- A call that was let through by the breaker is granted a permit. -/
theorem Accounted.grant {breaker : BasicCircuitBreaker} {semaphore : CountingSemaphore}
    {bucket : TokenBucketLimiter} (h : Accounted ledger)
    (hidle : ¬ { ledger.controller with breaker }.HalfOpen → breaker.halfOpenInFlight = 0)
    (hprobes : breaker.halfOpenInFlight =
      ledger.unreported.count true + if { ledger.controller with breaker }.HalfOpen then 1 else 0)
    (hsemaphore : ledger.controller.UsesSemaphore →
      semaphore.count + 1 = ledger.controller.semaphore.count) :
    Accounted
      { controller := { ledger.controller with
          breaker, semaphore, bucket
          acquiredRatePermits := ledger.controller.acquiredRatePermits + 1 }
        unreported := decide { ledger.controller with breaker }.HalfOpen :: ledger.unreported
        unreleased := ledger.unreleased + 1 } where
  probes := by
    simp only
    rw [List.count_cons, hprobes]
    simp only [beq_true, decide_eq_true_eq]
  idle := hidle
  permits := congrArg (· + 1) h.permits
  semaphore huses := by
    have hcap := h.semaphore huses
    have hcount := hsemaphore huses
    simp only
    omega

/-- The breaker and the permits stay as they are. -/
theorem Accounted.keep {openObserved : Bool} {bucket : TokenBucketLimiter} (h : Accounted ledger) :
    Accounted { ledger with controller := { ledger.controller with openObserved, bucket } } :=
  { h with }

/-- What a refused attempt leaves as it was. -/
def SameHeld (before after : RpcGovernanceController) : Prop :=
  after.breaker.halfOpenInFlight = before.breaker.halfOpenInFlight ∧
    after.acquiredRatePermits = before.acquiredRatePermits ∧ after.semaphore = before.semaphore

section

variable (h : Accounted ledger)
include h

theorem Accounted.tryAcquire (hsound : ledger.Sound rounding (.tryAcquire now)) :
    Accounted (ledger.call rounding (.tryAcquire now)) ∧
      ∀ error, (ledger.controller.tryAcquire rounding now).1 = .error error →
        SameHeld ledger.controller (ledger.controller.tryAcquire rounding now).2 := by
  simp only [call]
  by_cases hprobe : ledger.controller.TakesProbe now
  · obtain ⟨breaker, htry, hst, hinFlight⟩ :=
      tryAcquire_of_takesProbe hprobe
    have hhalf : { ledger.controller with breaker }.HalfOpen := ⟨hprobe.1, hst⟩
    have hpermit : { ledger.controller with breaker }.PermitAvailable rounding now := hsound hprobe
    obtain ⟨semaphore, bucket, hgranted, hsemaphore⟩ := acquireRate_granted hpermit
    rw [htry, hgranted]
    refine ⟨h.grant (fun hnot => absurd hhalf hnot) ?_ hsemaphore, nofun⟩
    rw [hinFlight, if_pos hhalf]
    by_cases hbefore : ledger.controller.breaker.state = .HalfOpen
    · rw [if_pos hbefore, h.probes]
    rw [if_neg hbefore, h.unreported_of_not_halfOpen (fun hhalf => hbefore hhalf.2)]
  rcases tryAcquire_of_not_takesProbe hprobe with
    ⟨openObserved, htry⟩ | ⟨hhalf, htry⟩
  · rw [htry]
    exact ⟨h.keep, fun _ _ => ⟨rfl, rfl, rfl⟩⟩
  by_cases hpermit : ledger.controller.PermitAvailable rounding now
  · obtain ⟨semaphore, bucket, hgranted, hsemaphore⟩ := acquireRate_granted hpermit
    rw [htry, hgranted]
    refine ⟨h.grant (fun _ => h.idle hhalf) ?_ hsemaphore, nofun⟩
    rw [if_neg hhalf]
    exact h.probes
  obtain ⟨bucket, hrefused⟩ := acquireRate_refused hpermit
  rw [htry, hrefused]
  exact ⟨h.keep, fun _ _ => ⟨rfl, rfl, rfl⟩⟩

theorem Accounted.report {breaker : BasicCircuitBreaker} {openObserved : Bool}
    {unreported : List Bool} (hprobes : breaker.halfOpenInFlight = unreported.count true)
    (hidle : ¬ { ledger.controller with breaker }.HalfOpen → breaker.halfOpenInFlight = 0) :
    Accounted { ledger with
      controller := { ledger.controller with breaker, openObserved }
      unreported } :=
  { h with probes := hprobes, idle := hidle }

/-- Outside the half-open state the calls that have not reported are no probes. -/
theorem Accounted.erase_of_not_halfOpen (probe : Bool) (hhalf : ¬ ledger.controller.HalfOpen) :
    ledger.controller.breaker.halfOpenInFlight = (ledger.unreported.erase probe).count true := by
  have hcount := h.unreported_of_not_halfOpen hhalf
  have hle : (ledger.unreported.erase probe).count true ≤ ledger.unreported.count true :=
    List.erase_sublist.count_le true
  rw [h.idle hhalf]
  omega

theorem Accounted.onSuccess (hsound : ledger.Sound rounding (.onSuccess probe)) :
    Accounted (ledger.call rounding (.onSuccess probe)) := by
  simp only [call, RpcGovernanceController.onSuccess]
  by_cases henabled : ledger.controller.policy.circuitBreaker.enabled
  · rw [if_pos henabled]
    by_cases hst : ledger.controller.breaker.state = .HalfOpen
    · obtain ⟨hreporter, hends⟩ := hsound ⟨henabled, hst⟩
      by_cases hthr : ledger.controller.breaker.config.successThreshold ≤
          ledger.controller.breaker.successCount + 1
      · have hnone := List.count_eq_zero.2 (hends hthr)
        have hcloses := ledger.controller.breaker.onSuccess_closes hst hthr
        rw [hcloses]
        exact h.report hnone.symm (fun _ => rfl)
      have hstays := ledger.controller.breaker.onSuccess_stays hst hthr
      rw [hstays]
      refine h.report ?_ (fun hnot => absurd ⟨henabled, hst⟩ hnot)
      have hprobes := h.probes
      simp only [BasicCircuitBreaker.releaseHalfOpenProbe]
      rcases hreporter with hreporter | hnone
      · rw [hreporter, List.count_erase_self, hprobes]
      have hle : (ledger.unreported.erase probe).count true ≤ ledger.unreported.count true :=
        List.erase_sublist.count_le true
      have hzero := List.count_eq_zero.2 hnone
      omega
    have hhalf : ¬ ledger.controller.HalfOpen := fun hhalf => hst hhalf.2
    obtain ⟨-, hinFlight⟩ := ledger.controller.breaker.onSuccess_of_ne_halfOpen hst
    refine h.report ?_ (fun _ => hinFlight.trans (h.idle hhalf))
    exact hinFlight.trans (h.erase_of_not_halfOpen probe hhalf)
  rw [if_neg henabled]
  have hhalf : ¬ ledger.controller.HalfOpen := fun hhalf => henabled hhalf.1
  exact h.report (h.erase_of_not_halfOpen probe hhalf) h.idle

theorem Accounted.onFailure (hsound : ledger.Sound rounding (.onFailure probe now)) :
    Accounted (ledger.call rounding (.onFailure probe now)) := by
  simp only [call, RpcGovernanceController.onFailure]
  by_cases henabled : ledger.controller.policy.circuitBreaker.enabled
  · rw [if_pos henabled]
    by_cases hst : ledger.controller.breaker.state = .HalfOpen
    · have hinFlight := ledger.controller.breaker.onFailure_halfOpen now hst
      have hnone := List.count_eq_zero.2 (hsound ⟨henabled, hst⟩)
      exact h.report (hinFlight.trans hnone.symm) (fun _ => hinFlight)
    have hhalf : ¬ ledger.controller.HalfOpen := fun hhalf => hst hhalf.2
    have hinFlight := ledger.controller.breaker.onFailure_of_ne_halfOpen now hst
    refine h.report ?_ (fun _ => hinFlight.trans (h.idle hhalf))
    exact hinFlight.trans (h.erase_of_not_halfOpen probe hhalf)
  rw [if_neg henabled]
  have hhalf : ¬ ledger.controller.HalfOpen := fun hhalf => henabled hhalf.1
  exact h.report (h.erase_of_not_halfOpen probe hhalf) h.idle

theorem Accounted.release (hvalid : ledger.Valid .release) :
    Accounted (ledger.call rounding .release) := by
  have hpermits := h.permits
  have hheld : 0 < ledger.controller.acquiredRatePermits := Nat.lt_of_lt_of_eq hvalid hpermits.symm
  have hunreleased : 0 < ledger.unreleased := hvalid
  simp only [call, RpcGovernanceController.release, if_pos hheld]
  split
  · next huses =>
    refine ⟨h.probes, h.idle, congrArg (· - 1) hpermits, fun _ => ?_⟩
    have hcap := h.semaphore huses
    simp only [CountingSemaphore.release]
    omega
  next huses =>
  exact ⟨h.probes, h.idle, congrArg (· - 1) hpermits, fun huses' => absurd huses' huses⟩

end

variable {policy : RpcGovernancePolicy}

theorem GovernanceRun.accounted (hrun : GovernanceRun rounding policy (Sound rounding) ledger) :
    Accounted ledger := by
  induction hrun with
  | new now => exact ⟨rfl, fun _ => rfl, rfl, fun _ => rfl⟩
  | call next hrun hvalid hallowed ih =>
  cases next with
  | tryAcquire now => exact (ih.tryAcquire hallowed).1
  | onSuccess probe => exact ih.onSuccess hallowed
  | onFailure probe now => exact ih.onFailure hallowed
  | release => exact ih.release hvalid

/-! ## The law -/

/-- The time for a probe has come, unless the breaker is not open. -/
def ResetElapsed (controller : RpcGovernanceController) (now : Int) : Prop :=
  controller.breaker.state = .Open → controller.breaker.TimedOut now

/-- The next attempt is admitted, or the one after it. -/
def AdmitsSoon (rounding : RateRounding) (controller : RpcGovernanceController) (now : Int) : Prop :=
  (controller.tryAcquire rounding now).1 = .ok () ∨
    ∀ later, now ≤ later →
      ((controller.tryAcquire rounding now).2.tryAcquire rounding later).1 = .ok ()

theorem tryAcquire_ok_of_takesProbe {controller : RpcGovernanceController}
    (hprobe : controller.TakesProbe now) (hpermit : controller.PermitAvailable rounding now) :
    (controller.tryAcquire rounding now).1 = .ok () := by
  obtain ⟨breaker, htry, -, -⟩ := tryAcquire_of_takesProbe hprobe
  have hpermit : { controller with breaker }.PermitAvailable rounding now := hpermit
  obtain ⟨semaphore, bucket, hgranted, -⟩ := acquireRate_granted hpermit
  rw [htry, hgranted]

theorem timedOut_mono {breaker : BasicCircuitBreaker} (hle : now ≤ later)
    (htimeout : breaker.TimedOut now) : breaker.TimedOut later := by
  obtain ⟨hlast, helapsed⟩ := htimeout
  exact ⟨by omega, by omega⟩

theorem Accounted.admitsSoon (h : Accounted ledger) (hunreported : ledger.unreported = [])
    (hreset : ResetElapsed ledger.controller now)
    (hpermits : ∀ later, now ≤ later → ledger.controller.PermitAvailable rounding later) :
    AdmitsSoon rounding ledger.controller now := by
  have hpermit := hpermits now (Int.le_refl now)
  by_cases hidle : ledger.controller.policy.circuitBreaker.enabled →
      ledger.controller.breaker.state = .Closed
  · obtain ⟨semaphore, bucket, hgranted, -⟩ := acquireRate_granted hpermit
    refine .inl ?_
    rw [tryAcquire_of_closed hidle, hgranted]
  rw [Classical.not_imp] at hidle
  obtain ⟨henabled, hclosed⟩ := hidle
  cases hst : ledger.controller.breaker.state with
  | Closed => exact absurd hst hclosed
  | Open =>
    have htimeout := hreset hst
    by_cases hobserved : ledger.controller.openObserved
    · have hprobe : ledger.controller.TakesProbe now :=
        ⟨henabled, .inl ⟨hst, hobserved, htimeout⟩⟩
      exact .inl (tryAcquire_ok_of_takesProbe hprobe hpermit)
    -- The first attempt only observes that the breaker is open.
    have hfirst : ledger.controller.tryAcquire rounding now =
        (.error circuitOpen, { ledger.controller with openObserved := true }) :=
      if_pos ⟨henabled, hst, hobserved⟩
    refine .inr (fun later hle => ?_)
    rw [hfirst]
    refine tryAcquire_ok_of_takesProbe ?_ (hpermits later hle)
    exact ⟨henabled, .inl ⟨hst, rfl, timedOut_mono hle htimeout⟩⟩
  | HalfOpen =>
  have hinFlight : ledger.controller.breaker.halfOpenInFlight = 0 := by
    rw [h.probes, hunreported]
    rfl
  have hprobe : ledger.controller.TakesProbe now := by
    refine ⟨henabled, .inr ⟨hst, ?_⟩⟩
    rw [hinFlight]
    exact ledger.controller.breaker.halfOpenMaxRequests_pos
  exact .inl (tryAcquire_ok_of_takesProbe hprobe hpermit)

/-- As long as the limiter has a permit for every probe, and the outcomes in the half-open state are
those of its probes, a refused attempt leaves nothing held, the probes that are held are those of the
outstanding calls that were admitted in the half-open state, and a controller without outstanding
calls does not refuse for ever. -/
theorem governance_of_soundRun (hrun : GovernanceRun rounding policy (Sound rounding) ledger) :
    (∀ now error, ledger.Sound rounding (.tryAcquire now) →
      (ledger.controller.tryAcquire rounding now).1 = .error error →
        SameHeld ledger.controller (ledger.controller.tryAcquire rounding now).2) ∧
    ledger.controller.breaker.halfOpenInFlight = ledger.unreported.count true ∧
    (ledger.unreported = [] → ledger.unreleased = 0 → ∀ now, ResetElapsed ledger.controller now →
      (∀ later, now ≤ later → ledger.controller.PermitAvailable rounding later) →
        AdmitsSoon rounding ledger.controller now) := by
  have h := hrun.accounted
  refine ⟨fun now error hsound => (h.tryAcquire hsound).2 error, h.probes, ?_⟩
  exact fun hunreported _ now hreset hpermits => h.admitsSoon hunreported hreset hpermits

/-- Rounded down, with nanoseconds as ticks. -/
def exactRounding : RateRounding where
  toRateLimiterUnits rate := (rate * kRateLimiterPrecision).floor
  tokensToAdd elapsed rateUnits := elapsed * rateUnits / 1000000000

/-- One call at a time, and one failure opens the breaker. -/
def strictPolicy : RpcGovernancePolicy where
  rateLimit := { enabled := true, capacity := 1, refillPerSecond := 0 }
  circuitBreaker := { enabled := true, failureThreshold := 1, resetTimeout := 0 }

/-- After a failure that opens the breaker, and the release of the call, a probe is admitted. -/
theorem governance_of_one_failure :
    ∃ ledger, GovernanceRun exactRounding strictPolicy (Sound exactRounding) ledger ∧
      ledger.controller.breaker.state = .Open ∧
      ledger.controller.breaker.halfOpenInFlight = ledger.unreported.count true ∧
      AdmitsSoon exactRounding ledger.controller 2 := by
  have hadmitted : GovernanceRun exactRounding strictPolicy (Sound exactRounding) _ :=
    (GovernanceRun.new 0).call (.tryAcquire 0) trivial (fun hprobe => by
      rcases hprobe.2 with hopen | hhalf
      · exact absurd hopen.1 nofun
      · exact absurd hhalf.1 nofun)
  have hfailed := hadmitted.call (.onFailure false 1) (.head []) (fun hhalf => absurd hhalf.2 nofun)
  have hreleased := hfailed.call .release Nat.one_pos trivial
  obtain ⟨-, hprobes, hsoon⟩ := governance_of_soundRun hreleased
  refine ⟨_, hreleased, rfl, hprobes, hsoon rfl rfl 2 (fun _ => by decide) ?_⟩
  exact fun later _ => permitAvailable_of_semaphore later (by decide) (by decide)

/-- The breaker is opened by a call that is not released yet. The limiter refuses the probe, and when
the call has been released nothing is outstanding, there is a permit, and every attempt is refused. -/
theorem governance_stuck :
    ∃ ledger, GovernanceRun exactRounding strictPolicy (fun _ _ => True) ledger ∧
      ledger.unreported = [] ∧ ledger.unreleased = 0 ∧
      ledger.controller.breaker.halfOpenInFlight ≠ ledger.unreported.count true ∧
      ∀ now, ResetElapsed ledger.controller now ∧
        ledger.controller.PermitAvailable exactRounding now ∧
        ledger.controller.tryAcquire exactRounding now =
          (.error circuitOpen, ledger.controller) := by
  have hadmitted : GovernanceRun exactRounding strictPolicy (fun _ _ => True) _ :=
    (GovernanceRun.new 0).call (.tryAcquire 0) trivial trivial
  have hfailed := hadmitted.call (.onFailure false 1) (.head []) trivial
  have hobserved := hfailed.call (.tryAcquire 2) trivial trivial
  have hlimited := hobserved.call (.tryAcquire 3) trivial trivial
  have hreleased := hlimited.call .release Nat.one_pos trivial
  refine ⟨_, hreleased, rfl, rfl, by decide, fun now => ⟨nofun, ?_, rfl⟩⟩
  exact permitAvailable_of_semaphore now (by decide) (by decide)

end Galay.Rpc
