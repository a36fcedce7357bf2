import Galay.Utils.CircuitBreaker

/-!
# The half-open periods of a circuit breaker

The counters of a half-open period do not tell which requests they are about. They are right as long
as a success that is reported in the period is one of a request that was admitted in it.
-/

namespace Galay.Utils

open List

/-- A breaker with the requests that have not reported yet. A request that was admitted in a half-open
period is known by the number of the period. -/
structure BreakerLedger where
  breaker : BasicCircuitBreaker
  period : Nat := 0
  outstanding : List (Option Nat) := []
  /-- The requests of the period that have succeeded. -/
  successes : Nat := 0
  /-- How many they were when the breaker was closed after a period. -/
  recoveries : List Nat := []

inductive BreakerCall
  | allowRequest (now : Int)
  | onSuccess (request : Option Nat)
  | onFailure (request : Option Nat) (now : Int)
  deriving DecidableEq, Repr

namespace BreakerLedger

variable (ledger : BreakerLedger)

/-- What is known of a request that is admitted now. -/
def tag : Option Nat := if ledger.breaker.state = .HalfOpen then some ledger.period else none

/-- A new half-open period has begun. -/
def begin (breaker : BasicCircuitBreaker) : BreakerLedger :=
  if ledger.breaker.state = .Open ∧ breaker.state = .HalfOpen then
    { ledger with breaker, period := ledger.period + 1, successes := 0 }
  else { ledger with breaker }

def call : BreakerCall → BreakerLedger
  | .allowRequest now =>
    let (allowed, breaker) := ledger.breaker.allowRequest now
    let ledger := ledger.begin breaker
    if allowed then { ledger with outstanding := ledger.tag :: ledger.outstanding } else ledger
  | .onSuccess request =>
    let breaker := ledger.breaker.onSuccess
    let successes := if ledger.breaker.state = .HalfOpen ∧ request = some ledger.period then
      ledger.successes + 1 else ledger.successes
    { ledger with
      breaker
      outstanding := ledger.outstanding.erase request
      successes
      recoveries := if ledger.breaker.state = .HalfOpen ∧ breaker.state = .Closed then
        ledger.recoveries ++ [successes] else ledger.recoveries }
  | .onFailure request now =>
    { ledger with
      breaker := ledger.breaker.onFailure now
      outstanding := ledger.outstanding.erase request }

/-- A request reports once. -/
def Valid : BreakerCall → Prop
  | .allowRequest _ => True
  | .onSuccess request => request ∈ ledger.outstanding
  | .onFailure request _ => request ∈ ledger.outstanding

instance (next : BreakerCall) : Decidable (ledger.Valid next) :=
  match next with
  | .allowRequest _ => instDecidableTrue
  | .onSuccess _ => inferInstanceAs (Decidable (_ ∈ _))
  | .onFailure _ _ => inferInstanceAs (Decidable (_ ∈ _))

/-- A success in a half-open period is one of a request of the period. -/
def Clean : BreakerCall → Prop
  | .onSuccess request => ledger.breaker.state = .HalfOpen → request = some ledger.period
  | _ => True

end BreakerLedger

/-- The states that a breaker comes to by calls that are allowed. -/
inductive BreakerRun (config : CircuitBreakerConfig) (Allowed : BreakerLedger → BreakerCall → Prop) :
    BreakerLedger → Prop
  | new : BreakerRun config Allowed { breaker := .new config }
  | call {ledger : BreakerLedger} (next : BreakerCall) (hrun : BreakerRun config Allowed ledger)
    (hvalid : ledger.Valid next) (hallowed : Allowed ledger next) :
    BreakerRun config Allowed (ledger.call next)

/-! ## The invariant -/

open BasicCircuitBreaker BreakerLedger

/-- In a half-open period the counters are about the requests of the period. -/
structure Probing (ledger : BreakerLedger) : Prop where
  known : ∀ p, some p ∈ ledger.outstanding → p ≤ ledger.period
  bounded : ∀ p, ledger.outstanding.count (some p) ≤ ledger.breaker.config.halfOpenMaxRequests
  inFlight : ledger.breaker.state = .HalfOpen →
    ledger.breaker.halfOpenInFlight = ledger.outstanding.count (some ledger.period)
  successCount : ledger.breaker.state = .HalfOpen → ledger.breaker.successCount = ledger.successes
  recovered : ∀ n ∈ ledger.recoveries, ledger.breaker.config.successThreshold ≤ n

variable {ledger : BreakerLedger}

theorem Probing.admit (h : Probing ledger) (hst : ledger.breaker.state = .HalfOpen)
    (hroom : ledger.breaker.halfOpenInFlight < ledger.breaker.config.halfOpenMaxRequests) :
    Probing { ledger with
      breaker := { ledger.breaker with halfOpenInFlight := ledger.breaker.halfOpenInFlight + 1 }
      outstanding := some ledger.period :: ledger.outstanding } where
  __ := h
  known p hmem := by
    rcases mem_cons.1 hmem with heq | hmem
    · exact Nat.le_of_eq (Option.some.inj heq)
    exact h.known p hmem
  bounded p := by
    have hbounded := h.bounded p
    have hinFlight := h.inFlight hst
    simp only
    rw [count_cons]
    split
    · next heq =>
      rw [beq_iff_eq, Option.some.injEq] at heq
      subst heq
      omega
    omega
  inFlight _ := by
    simp only
    rw [count_cons_self, h.inFlight hst]

theorem Probing.admitClosed (h : Probing ledger) (hst : ledger.breaker.state = .Closed) :
    Probing { ledger with outstanding := none :: ledger.outstanding } where
  known p hmem := h.known p ((mem_cons.1 hmem).resolve_left nofun)
  bounded p := by
    simp only
    rw [count_cons_of_ne (Option.some_ne_none p).symm]
    exact h.bounded p
  inFlight hhalf := absurd (hst.symm.trans hhalf) nofun
  successCount hhalf := absurd (hst.symm.trans hhalf) nofun
  recovered := h.recovered

theorem Probing.beginPeriod (h : Probing ledger) :
    Probing { ledger with
      breaker := ledger.breaker.transition .HalfOpen
      period := ledger.period + 1
      successes := 0 } where
  __ := h
  known p hmem := Nat.le_succ_of_le (h.known p hmem)
  inFlight _ := by
    have hnone : some (ledger.period + 1) ∉ ledger.outstanding := fun hmem =>
      Nat.not_succ_le_self _ (h.known _ hmem)
    exact (count_eq_zero.2 hnone).symm
  successCount _ := rfl

variable {breaker : BasicCircuitBreaker}

theorem Probing.leave {recoveries : List Nat} {successes : Nat} (h : Probing ledger)
    (request : Option Nat) (hconfig : breaker.config = ledger.breaker.config)
    (hst : breaker.state ≠ .HalfOpen)
    (hrecovered : ∀ n ∈ recoveries, ledger.breaker.config.successThreshold ≤ n) :
    Probing { ledger with
      breaker, successes, recoveries, outstanding := ledger.outstanding.erase request } where
  known p hmem := h.known p (mem_of_mem_erase hmem)
  bounded p := by
    simp only
    rw [hconfig]
    exact Nat.le_trans (erase_sublist.count_le _) (h.bounded p)
  inFlight hhalf := absurd hhalf hst
  successCount hhalf := absurd hhalf hst
  recovered := by
    simp only
    rw [hconfig]
    exact hrecovered

/-- A call that leaves the breaker as it is, and admits nothing. -/
theorem call_refused {now : Int} (hrefused : ledger.breaker.allowRequest now = (false, ledger.breaker))
    (hst : ledger.breaker.state ≠ .Open ∨ ledger.breaker.state ≠ .HalfOpen) :
    ledger.call (.allowRequest now) = ledger := by
  simp only [BreakerLedger.call, hrefused, Bool.false_eq_true, if_false, begin]
  rw [if_neg]
  rintro ⟨hopen, hhalf⟩
  rcases hst with hst | hst
  · exact hst hopen
  exact hst hhalf

theorem call_admitted {now : Int} (hadmitted : ledger.breaker.allowRequest now = (true, breaker))
    (hst : ledger.breaker.state ≠ .Open) :
    ledger.call (.allowRequest now) =
      { ledger with
        breaker
        outstanding := (if breaker.state = .HalfOpen then some ledger.period else none) ::
          ledger.outstanding } := by
  simp only [BreakerLedger.call, hadmitted, if_true, begin]
  rw [if_neg (fun hopen => hst hopen.1)]
  rfl

theorem call_first {now : Int} (hadmitted : ledger.breaker.allowRequest now = (true, breaker))
    (hopen : ledger.breaker.state = .Open) (hhalf : breaker.state = .HalfOpen) :
    ledger.call (.allowRequest now) =
      { ledger with
        breaker
        period := ledger.period + 1
        successes := 0
        outstanding := some (ledger.period + 1) :: ledger.outstanding } := by
  simp only [BreakerLedger.call, hadmitted, if_true, begin]
  rw [if_pos ⟨hopen, hhalf⟩]
  simp only [tag, if_pos hhalf]

section

variable (h : Probing ledger)

include h

theorem Probing.allowRequest (now : Int) :
    Probing (ledger.call (.allowRequest now)) := by
  cases hst : ledger.breaker.state with
  | Closed =>
    have hadmitted : ledger.breaker.allowRequest now = (true, ledger.breaker) := by
      rw [BasicCircuitBreaker.allowRequest, hst]
    rw [call_admitted hadmitted (by rw [hst]; rintro ⟨⟩), if_neg (by rw [hst]; rintro ⟨⟩)]
    exact h.admitClosed hst
  | Open =>
    by_cases htimeout : ledger.breaker.TimedOut now
    · have hroom : (ledger.breaker.transition .HalfOpen).halfOpenInFlight <
          (ledger.breaker.transition .HalfOpen).config.halfOpenMaxRequests :=
        ledger.breaker.halfOpenMaxRequests_pos
      have hadmitted := ledger.breaker.allowRequest_open hst htimeout
      rw [call_first hadmitted hst rfl]
      exact h.beginPeriod.admit rfl hroom
    have hrefused : ledger.breaker.allowRequest now = (false, ledger.breaker) := by
      simp only [BasicCircuitBreaker.allowRequest, hst, if_neg htimeout]
    rw [call_refused hrefused (.inr (by rw [hst]; rintro ⟨⟩))]
    exact h
  | HalfOpen =>
  have hopen : ledger.breaker.state ≠ .Open := by rw [hst]; rintro ⟨⟩
  by_cases hroom : ledger.breaker.halfOpenInFlight < ledger.breaker.config.halfOpenMaxRequests
  · have hadmitted := ledger.breaker.allowRequest_halfOpen now hst hroom
    rw [call_admitted hadmitted hopen, if_pos hst]
    exact h.admit hst hroom
  have hrefused : ledger.breaker.allowRequest now = (false, ledger.breaker) := by
    simp only [BasicCircuitBreaker.allowRequest, hst, tryAcquireHalfOpenProbe, if_neg hroom]
  rw [call_refused hrefused (.inl hopen)]
  exact h

/-- The success of a request of the period, before the period is over. -/
theorem Probing.succeed (hst : ledger.breaker.state = .HalfOpen) :
    Probing { ledger with
      breaker := { ledger.breaker.releaseHalfOpenProbe with
        successCount := ledger.breaker.successCount + 1 }
      outstanding := ledger.outstanding.erase (some ledger.period)
      successes := ledger.successes + 1 } where
  known p hmem := h.known p (mem_of_mem_erase hmem)
  bounded p := Nat.le_trans (erase_sublist.count_le _) (h.bounded p)
  inFlight _ := by
    simp only [releaseHalfOpenProbe]
    rw [count_erase_self, h.inFlight hst]
  successCount _ := congrArg (· + 1) (h.successCount hst)
  recovered := h.recovered

theorem Probing.onSuccess (hclean : ledger.Clean (.onSuccess request)) :
    Probing (ledger.call (.onSuccess request)) := by
  cases hst : ledger.breaker.state with
  | Closed =>
    have hcall : ledger.breaker.onSuccess = { ledger.breaker with failureCount := 0 } := by
      simp only [BasicCircuitBreaker.onSuccess, hst]
    have hhalf : ledger.breaker.state ≠ .HalfOpen := by rw [hst]; rintro ⟨⟩
    simp only [BreakerLedger.call, hcall]
    rw [if_neg (fun h => hhalf h.1), if_neg (fun h => hhalf h.1)]
    exact h.leave request rfl hhalf h.recovered
  | Open =>
    have hcall : ledger.breaker.onSuccess = ledger.breaker := by
      simp only [BasicCircuitBreaker.onSuccess, hst]
    have hhalf : ledger.breaker.state ≠ .HalfOpen := by rw [hst]; rintro ⟨⟩
    simp only [BreakerLedger.call, hcall]
    rw [if_neg (fun h => hhalf h.1), if_neg (fun h => hhalf h.1)]
    exact h.leave request rfl hhalf h.recovered
  | HalfOpen =>
  obtain rfl : request = some ledger.period := hclean hst
  have hsuccesses := h.successCount hst
  by_cases hthr : ledger.breaker.config.successThreshold ≤ ledger.breaker.successCount + 1
  · have hcall := ledger.breaker.onSuccess_closes hst hthr
    simp only [BreakerLedger.call, hcall]
    rw [if_pos ⟨hst, trivial⟩, if_pos ⟨hst, rfl⟩]
    refine h.leave _ rfl (by rintro ⟨⟩) (fun n hmem => ?_)
    rcases mem_append.1 hmem with hmem | hmem
    · exact h.recovered n hmem
    rw [mem_singleton.1 hmem, ← hsuccesses]
    exact hthr
  have hcall := ledger.breaker.onSuccess_stays hst hthr
  simp only [BreakerLedger.call, hcall]
  rw [if_pos ⟨hst, trivial⟩, if_neg]
  · exact h.succeed hst
  rintro ⟨-, hclosed⟩
  cases hst.symm.trans hclosed

theorem Probing.onFailure (request : Option Nat) (now : Int) :
    Probing (ledger.call (.onFailure request now)) :=
  h.leave request (ledger.breaker.onFailure_config now) (ledger.breaker.onFailure_ne_halfOpen now)
    h.recovered

end

/-! ## The law -/

theorem BreakerLedger.call_config (next : BreakerCall) :
    (ledger.call next).breaker.config = ledger.breaker.config := by
  cases next with
  | allowRequest now =>
    rw [← ledger.breaker.allowRequest_config now]
    simp only [BreakerLedger.call, begin]
    split <;> split <;> rfl
  | onSuccess request => exact ledger.breaker.onSuccess_config
  | onFailure request now => exact ledger.breaker.onFailure_config now

variable {config : CircuitBreakerConfig}

theorem BreakerRun.config_eq
    (hrun : BreakerRun config Allowed ledger) : ledger.breaker.config = normalizeConfig config := by
  induction hrun with
  | new => rfl
  | call next hrun hvalid hallowed ih => exact (BreakerLedger.call_config next).trans ih

theorem BreakerRun.probing (hrun : BreakerRun config Clean ledger) : Probing ledger := by
  induction hrun with
  | new =>
    exact {
      known := nofun
      bounded := fun p => Nat.zero_le _
      inFlight := nofun
      successCount := nofun
      recovered := nofun }
  | call next hrun hvalid hallowed ih =>
  cases next with
  | allowRequest now => exact ih.allowRequest now
  | onSuccess request => exact ih.onSuccess hallowed
  | onFailure request now => exact ih.onFailure request now

/-- As long as a success that is reported in a half-open period is one of a request of the period, no
more requests of one period are outstanding than the configuration says, and the breaker is closed
after a period only when enough requests of the period have succeeded. -/
theorem halfOpenLaw_of_cleanRun (hrun : BreakerRun config Clean ledger) :
    (∀ p, ledger.outstanding.count (some p) ≤ (normalizeConfig config).halfOpenMaxRequests) ∧
      ∀ n ∈ ledger.recoveries, (normalizeConfig config).successThreshold ≤ n := by
  have h := hrun.probing
  rw [← hrun.config_eq]
  exact ⟨h.bounded, h.recovered⟩

/-- One failure opens the breaker, and it tries again at once. -/
def hastyConfig (successThreshold : Nat) : CircuitBreakerConfig where
  failureThreshold := 1
  successThreshold := successThreshold
  resetTimeout := 0

/-- A request fails, and the probe after it succeeds. -/
theorem halfOpenLaw_of_one_probe :
    ∃ ledger, BreakerRun (hastyConfig 1) Clean ledger ∧ ledger.recoveries = [1] ∧
      (∀ p, ledger.outstanding.count (some p) ≤
        (normalizeConfig (hastyConfig 1)).halfOpenMaxRequests) ∧
      ∀ n ∈ ledger.recoveries, (normalizeConfig (hastyConfig 1)).successThreshold ≤ n := by
  have hadmitted : BreakerRun (hastyConfig 1) Clean _ := .call (.allowRequest 0) .new trivial trivial
  have hfailed := hadmitted.call (.onFailure none 0) (by decide) trivial
  have hprobe := hfailed.call (.allowRequest 1) trivial trivial
  have hclosed := hprobe.call (.onSuccess (some 1)) (by decide) (fun _ => rfl)
  exact ⟨_, hclosed, rfl, halfOpenLaw_of_cleanRun hclosed⟩

/-- Two requests are admitted before the breaker is opened by the failure of the first. The second
succeeds in the half-open period: it lets a second probe in while the first is still outstanding, and
it closes the breaker when one success is enough. -/
theorem halfOpenLaw_fails :
    (∃ ledger, BreakerRun (hastyConfig 2) (fun _ _ => True) ledger ∧
      (normalizeConfig (hastyConfig 2)).halfOpenMaxRequests < ledger.outstanding.count (some 1)) ∧
    ∃ ledger, BreakerRun (hastyConfig 1) (fun _ _ => True) ledger ∧
      ∃ n ∈ ledger.recoveries, n < (normalizeConfig (hastyConfig 1)).successThreshold := by
  have hstale (successThreshold : Nat) :
      BreakerRun (hastyConfig successThreshold) (fun _ _ => True) _ :=
    ((((BreakerRun.new.call (.allowRequest 0) trivial trivial).call
      (.allowRequest 0) trivial trivial).call
      (.onFailure none 0) (.head [none]) trivial).call
      (.allowRequest 1) trivial trivial).call
      (.onSuccess none) (.tail (some 1) (.head [])) trivial
  refine ⟨⟨_, (hstale 2).call (.allowRequest 2) trivial trivial, by decide⟩, ?_⟩
  exact ⟨_, hstale 1, 0, by decide, by decide⟩

end Galay.Utils
