import Galay.Kernel.TimeoutTimer
import Mathlib.Data.List.Basic

/-!
# The timeout and the operation have one winner

The completion and the calls that have an operation in flight (`Arbitrated`) know nothing of the gate of
the wake-up (`Gated`). A step changes one of them; for the other it is a move between places that are the
same to it.
-/

namespace Galay.Kernel.TimeoutTimer

open Function (forall_update_iff update_of_ne update_self)

/-! ## Places of a call -/

/-- What has been written as the winner where the completion is this. -/
def Completion.winners : Completion → List Winner
  | .operationWon => [.operation]
  | .timeoutWon => [.timeout]
  | _ => []

/-- An operation is in flight. -/
def Completion.inFlight : Completion → Bool
  | .operationInFlight | .timeoutRequested => true
  | _ => false

namespace Pc

/-- The call has started the operation in flight. -/
def owns : Pc → Bool
  | .started | .committing | .commitExchange _ | .aborting | .abortExchange _ => true
  | _ => false

def aborts : Pc → Bool
  | .aborting | .abortExchange _ => true
  | _ => false

/-- The call is about to set `kTimeout`. -/
def marks : Pc → Bool
  | .abortMark | .timeoutMark => true
  | _ => false

/-- The call has written the timeout as the winner and has not gone on. -/
def timesOut : Pc → Bool
  | .abortMark | .timeoutMark | .timeoutDone true => true
  | _ => false

def wakes : Pc → Bool
  | .waking | .wakeExchange _ => true
  | _ => false

def arms : Pc → Bool
  | .arming | .armStore => true
  | _ => false

/-- Nothing that the gate counts on is done here. -/
def apart (pc : Pc) : Prop := pc.arms = false ∧ pc ≠ .wakeUp

variable {pc : Pc}

theorem timesOut_of_marks (h : pc.marks = true) : pc.timesOut = true := by
  cases pc <;> first | rfl | cases h

theorem owns_of_aborts (h : pc.aborts = true) : pc.owns = true := by
  cases pc <;> first | rfl | cases h

section

variable (h : pc.atRest = true)

include h

theorem not_owns_of_atRest : pc.owns = false := by
  cases pc <;> first | rfl | cases h

theorem not_marks_of_atRest : pc.marks = false := by
  cases pc <;> first | rfl | cases h

theorem not_wakes_of_atRest : pc.wakes = false := by
  cases pc <;> first | rfl | cases h

theorem apart_of_atRest : pc.apart := by
  rcases pc <;> first | (cases h; done) | exact ⟨rfl, nofun⟩

end

end Pc

variable {ι : Type*} {calls : ι → Pc} {completion : Completion} {waker : WakerState} {kTimeout : Bool}
  {owner armer requester issuer : Option ι} {armResult : Option Bool} {winners : List Winner}
  {delivered : Bool} {wakeUps : Nat} {i : ι} {place pc : Pc}

/-! ## The completion -/

structure Arbitrated (calls : ι → Pc) (completion : Completion) (kTimeout : Bool) (owner : Option ι)
    (winners : List Winner) (delivered : Bool) : Prop where
  winners_eq : winners = completion.winners
  owner_iff : ∀ j, (calls j).owns = true ↔ owner = some j
  inFlight_iff : completion.inFlight = true ↔ owner ≠ none
  flag : kTimeout = true → completion = .timeoutWon
  timesOut : ∀ j, (calls j).timesOut = true → completion = .timeoutWon
  marked : completion = .timeoutWon → kTimeout = true ∨ ∃ j, (calls j).marks = true
  delivered_ne : delivered = true → completion ≠ .pending ∧ completion ≠ .operationInFlight

namespace Arbitrated

section

variable (h : Arbitrated calls completion kTimeout owner winners delivered)
include h

theorem inFlight_of_owns (howns : (calls i).owns = true) : completion.inFlight = true := by
  apply h.inFlight_iff.mpr
  rw [(h.owner_iff i).mp howns]
  exact nofun

theorem owner_eq (hcompl : completion.inFlight = false) : owner = none := by
  by_contra hne
  have hflight := h.inFlight_iff.mpr hne
  rw [hcompl] at hflight
  cases hflight

theorem deliver
    (hdeliv : delivered' = true → completion ≠ .pending ∧ completion ≠ .operationInFlight) :
    Arbitrated calls completion kTimeout owner winners delivered' :=
  { h with delivered_ne := hdeliv }

theorem not_flag (hcompl : completion ≠ .timeoutWon) : kTimeout = false := by
  rcases hflag : kTimeout
  · rfl
  exact absurd (h.flag hflag) hcompl

theorem requested (hcompl : completion = .operationInFlight) :
    Arbitrated calls .timeoutRequested kTimeout owner winners true := by
  subst hcompl
  refine ⟨h.winners_eq, h.owner_iff, h.inFlight_iff, fun hflag => ?_, fun j hj => ?_, nofun,
    fun _ => ⟨nofun, nofun⟩⟩
  · exact nomatch h.flag hflag
  exact nomatch h.timesOut j hj

end

variable [DecidableEq ι]

section

variable (h : Arbitrated calls completion kTimeout owner winners delivered)
include h

theorem owner_iff_update (howns : pc.owns = (calls i).owns) (j : ι) :
    (Function.update calls i pc j).owns = true ↔ owner = some j :=
  (forall_update_iff _ fun j (pc : Pc) => pc.owns = true ↔ owner = some j).2
    ⟨howns ▸ h.owner_iff i, fun j _ => h.owner_iff j⟩ j

/-- A call goes on without writing the completion. -/
theorem move (hi : calls i = place) (howns : pc.owns = place.owns)
    (hmarks : place.marks = true → pc.marks = true)
    (htimesOut : pc.timesOut = true → completion = .timeoutWon) :
    Arbitrated (Function.update calls i pc) completion kTimeout owner winners delivered where
  __ := h
  owner_iff := h.owner_iff_update (hi ▸ howns)
  timesOut := (forall_update_iff _ fun _ (pc : Pc) => pc.timesOut = true → completion = .timeoutWon).2
    ⟨htimesOut, fun j _ => h.timesOut j⟩
  marked hwon := (h.marked hwon).imp_right fun ⟨j, hj⟩ => ⟨j, by
    refine (forall_update_iff calls fun j pc => (calls j).marks = true → pc.marks = true).2
      ⟨fun hmarked => hmarks ?_, fun _ _ => id⟩ j hj
    rwa [hi] at hmarked⟩

theorem mark (hmarks : (calls i).marks = true) (hpc : pc.owns = false) :
    Arbitrated (Function.update calls i pc) completion true owner winners delivered := by
  have hwon := h.timesOut i (Pc.timesOut_of_marks hmarks)
  have hown : (calls i).owns = false := by
    rcases hi : calls i <;> first | rfl | (rw [hi] at hmarks; cases hmarks)
  exact ⟨h.winners_eq, h.owner_iff_update (hpc.trans hown.symm), h.inFlight_iff, fun _ => hwon,
    fun _ _ => hwon, fun _ => Or.inl rfl, h.delivered_ne⟩

/-- Only the owner has an operation in flight. -/
theorem owner_update (howner : owner = none ∨ owner = some i) (j : ι) :
    (Function.update calls i pc j).owns = true ↔ (if pc.owns then some i else none) = some j := by
  rcases eq_or_ne j i with rfl | hne
  · rw [update_self]
    cases pc.owns <;> simp
  rw [update_of_ne hne, h.owner_iff j]
  rcases howner with rfl | rfl
  · cases pc.owns <;> simp [hne.symm]
  cases pc.owns <;> simp [hne.symm]

theorem write (howner : owner = none ∨ owner = some i) (hcompl : completion ≠ .timeoutWon)
    {completion' : Completion} {winners' : List Winner} {delivered' : Bool} {owner' : Option ι}
    (howner' : owner' = if pc.owns then some i else none)
    (hwinners : winners' = completion'.winners) (hflight : completion'.inFlight = pc.owns)
    (hmarks : pc.marks = pc.timesOut) (htimesOut : pc.timesOut = true ↔ completion' = .timeoutWon)
    (hdeliv : delivered' = true → completion' ≠ .pending ∧ completion' ≠ .operationInFlight) :
    Arbitrated (Function.update calls i pc) completion' kTimeout owner' winners' delivered' where
  winners_eq := hwinners
  owner_iff j := by
    rw [howner']
    exact h.owner_update howner j
  inFlight_iff := by
    rw [hflight, howner']
    cases pc.owns <;> simp
  flag hflag := by
    rw [h.not_flag hcompl] at hflag
    cases hflag
  timesOut := (forall_update_iff _ fun _ (pc : Pc) => pc.timesOut = true → completion' = .timeoutWon).2
    ⟨htimesOut.mp, fun j _ hj => absurd (h.timesOut j hj) hcompl⟩
  marked hwon := by
    refine Or.inr ⟨i, ?_⟩
    rw [update_self, hmarks]
    exact htimesOut.mpr hwon
  delivered_ne := hdeliv

end

end Arbitrated

/-! ## The gate of the wake-up -/

/-- What belongs to the gate in a state. -/
structure Gate (ι : Type*) where
  waker : WakerState
  wakeUps : Nat
  armer : Option ι
  armResult : Option Bool
  requester : Option ι
  issuer : Option ι

/-- What a call at `pc` tells about the gate. -/
structure Gate.Agrees (g : Gate ι) (j : ι) (pc : Pc) : Prop where
  arms : pc.arms = true ↔ g.armer = some j ∧ g.armResult = none
  consumes : pc = .armStore → g.waker = .pending
  wakes : pc = .wakeUp ↔ g.issuer = some j ∧ g.wakeUps = 0
  requested : g.requester = some j → pc.wakes = true ∨ g.waker = .pending ∨ g.waker = .issued

/-- How far the gate has come, by what `arm` has returned. -/
structure Gate.Consistent (g : Gate ι) : Prop where
  unarmed : g.armResult = none → (g.waker = .arming ∨ g.waker = .pending) ∧ g.issuer = none
  armed : g.armResult = some true →
    g.waker = .armed ∧ g.issuer = none ∨ g.waker = .issued ∧ g.issuer ≠ none
  overtaken : g.armResult = some false → g.waker = .issued ∧ g.issuer = none
  armer : g.armer = none → g.armResult = none
  quiet : g.issuer = none → g.wakeUps = 0
  once : g.wakeUps ≤ 1

structure Gated (calls : ι → Pc) (g : Gate ι) : Prop extends g.Consistent where
  agrees : ∀ j, g.Agrees j (calls j)

namespace Gated

variable {g g' : Gate ι} {result : Bool}

/-- Nothing has been issued before `arm` has returned. -/
theorem issuer_eq (h : Gated calls g) (hwaker : g.waker ≠ .issued) : g.issuer = none := by
  rcases hres : g.armResult with _ | _ | _
  · exact (h.unarmed hres).2
  · exact (h.overtaken hres).2
  rcases h.armed hres with ⟨_, hissuer⟩ | ⟨hissued, _⟩
  · exact hissuer
  exact absurd hissued hwaker

theorem armResult_eq_none (h : Gated calls g) (hwaker : g.waker = .arming ∨ g.waker = .pending) :
    g.armResult = none := by
  rcases hres : g.armResult with _ | _ | _
  · rfl
  · rw [(h.overtaken hres).1] at hwaker
    rcases hwaker with hwaker | hwaker <;> cases hwaker
  rcases h.armed hres with ⟨hst, _⟩ | ⟨hst, _⟩
  all_goals
    rw [hst] at hwaker
    rcases hwaker with hwaker | hwaker <;> cases hwaker

theorem armResult_eq_true (h : Gated calls g) (harmed : g.waker = .armed) :
    g.armResult = some true := by
  rcases hres : g.armResult with _ | _ | _
  · rcases (h.unarmed hres).1 with hwaker | hwaker
    · exact nomatch harmed.symm.trans hwaker
    exact nomatch harmed.symm.trans hwaker
  · exact nomatch harmed.symm.trans (h.overtaken hres).1
  rfl

variable [DecidableEq ι]

section

variable (h : Gated calls g)
include h

/-- Only the call that makes the step is looked at more closely. -/
theorem update (hg : g'.Consistent) (hi : g'.Agrees i pc)
    (hothers : ∀ j ≠ i, g.Agrees j (calls j) → g'.Agrees j (calls j)) :
    Gated (Function.update calls i pc) g' :=
  ⟨hg, (forall_update_iff calls g'.Agrees).mpr ⟨hi, fun j hne => hothers j hne (h.agrees j)⟩⟩

theorem move (hcall : calls i = place) (hfrom : place.apart) (hto : pc.apart)
    (hwakes : place.wakes = true → pc.wakes = true ∨ g.waker = .pending ∨ g.waker = .issued) :
    Gated (Function.update calls i pc) g := by
  have hi := h.agrees i
  rw [hcall] at hi
  refine h.update h.toConsistent ⟨?_, ?_, ?_, ?_⟩ fun _ _ hj => hj
  · rw [hto.1, ← hfrom.1]
    exact hi.arms
  · intro hstore
    exact nomatch hto.1.symm.trans (congrArg Pc.arms hstore)
  · exact ⟨fun hwake => absurd hwake hto.2, fun hissued => absurd (hi.wakes.mpr hissued) hfrom.2⟩
  intro hrequester
  rcases hi.requested hrequester with hwake | hsettled
  · exact hwakes hwake
  exact Or.inr hsettled

theorem request (hcall : calls i = place) (hfrom : place.apart) :
    Gated (Function.update calls i .waking) { g with requester := some i } := by
  have hi := h.agrees i
  rw [hcall] at hi
  refine h.update { h.toConsistent with } ⟨?_, nofun, ?_, fun _ => Or.inl rfl⟩ fun j hne hj =>
    { hj with requested := fun heq => absurd (Option.some.inj heq).symm hne }
  · have harms := hi.arms
    rwa [hfrom.1] at harms
  exact ⟨nofun, fun hissued => absurd (hi.wakes.mpr hissued) hfrom.2⟩

theorem callArm (hidle : calls i = .idle) (honce : g.armer = none) :
    Gated (Function.update calls i .arming) { g with armer := some i } := by
  have hi := h.agrees i
  have hres := h.armer honce
  refine h.update { h.toConsistent with armer := nofun } ⟨?_, nofun, ?_, ?_⟩
    fun j hne hj => { hj with arms := ?_ }
  · exact ⟨fun _ => ⟨rfl, hres⟩, fun _ => rfl⟩
  · refine ⟨nofun, fun hissued => ?_⟩
    exact nomatch hidle.symm.trans (hi.wakes.mpr hissued)
  · intro hrequester
    have hwake := hi.requested hrequester
    rw [hidle] at hwake
    exact hwake
  rw [hj.arms, honce]
  exact ⟨fun h => (nomatch h.1), fun h => absurd (Option.some.inj h.1).symm hne⟩

theorem pend (hcall : calls i = .wakeExchange .arming) (harming : g.waker = .arming) :
    Gated (Function.update calls i .finished) { g with waker := .pending } := by
  have hres := h.armResult_eq_none (Or.inl harming)
  have hissuer := (h.unarmed hres).2
  have hi := h.agrees i
  rw [hcall] at hi
  refine h.update ⟨fun _ => ⟨Or.inr rfl, hissuer⟩, ?_, ?_, h.armer, h.quiet, h.once⟩
    ⟨hi.arms, nofun, ⟨nofun, fun hissued => nomatch hi.wakes.mpr hissued⟩,
      fun _ => Or.inr (Or.inl rfl)⟩
    fun j hne hj => ⟨hj.arms, fun _ => rfl, hj.wakes, fun _ => Or.inr (Or.inl rfl)⟩
  · exact fun htrue => nomatch hres.symm.trans htrue
  exact fun hfalse => nomatch hres.symm.trans hfalse

theorem issue (hcall : calls i = .wakeExchange .armed) (harmed : g.waker = .armed) :
    Gated (Function.update calls i .wakeUp) { g with waker := .issued, issuer := some i } := by
  have hres := h.armResult_eq_true harmed
  have hissuer := h.issuer_eq (by rw [harmed]; exact nofun)
  have hi := h.agrees i
  rw [hcall] at hi
  refine h.update
    ⟨?_, fun _ => Or.inr ⟨rfl, nofun⟩, ?_, h.armer, nofun, h.once⟩
    ⟨hi.arms, nofun, ⟨fun _ => ⟨rfl, h.quiet hissuer⟩, fun _ => rfl⟩, fun _ => Or.inr (Or.inr rfl)⟩
    fun j hne hj => ⟨hj.arms, ?_, ?_, fun _ => Or.inr (Or.inr rfl)⟩
  · exact fun hnone => nomatch hres.symm.trans hnone
  · exact fun hfalse => nomatch hres.symm.trans hfalse
  · exact fun hstore => nomatch harmed.symm.trans (hj.consumes hstore)
  rw [hj.wakes, hissuer]
  exact ⟨fun h => (nomatch h.1), fun h => absurd (Option.some.inj h.1).symm hne⟩

theorem wakeUp (hcall : calls i = .wakeUp) :
    Gated (Function.update calls i .finished) { g with wakeUps := g.wakeUps + 1 } := by
  have hi := h.agrees i
  obtain ⟨hissuer, hzero⟩ := hi.wakes.mp hcall
  rw [hcall] at hi
  refine h.update { h.toConsistent with quiet := ?_, once := ?_ }
    ⟨hi.arms, nofun, ⟨nofun, fun h => nomatch h.2⟩, hi.requested⟩
    fun j hne hj => { hj with wakes := ?_ }
  · exact fun hnone => nomatch hissuer.symm.trans hnone
  · dsimp only
    omega
  rw [hj.wakes, hissuer]
  exact ⟨fun h => absurd (Option.some.inj h.1).symm hne, fun h => nomatch h.2⟩

theorem armReturn (harms : (calls i).arms = true) (hpc : pc = .finished)
    (hres : g.waker = .arming ∧ waker = .armed ∧ result = true ∨ g.waker = .pending ∧ waker = .issued ∧ result = false)
    : Gated (Function.update calls i pc) { g with waker, armResult := some result } := by
  subst hpc
  have hi := h.agrees i
  obtain ⟨harmer, hnone⟩ := hi.arms.mp harms
  have hissuer := (h.unarmed hnone).2
  have hcall : calls i ≠ .wakeUp := by
    intro hwake
    rw [hwake] at harms
    cases harms
  have hnowake : (calls i).wakes = false := by
    rcases hplace : calls i <;> first | rfl | (rw [hplace] at harms; cases harms)
  have hreq : g.requester = some i → waker = .issued := by
    intro hrequester
    rcases hres with ⟨harming, _, _⟩ | ⟨_, hissued, _⟩
    · have hsettled := hi.requested hrequester
      rw [hnowake, harming] at hsettled
      rcases hsettled with hfalse | hfalse | hfalse <;> cases hfalse
    exact hissued
  refine h.update ⟨nofun, fun htrue => ?_, fun hfalse => ?_, ?_, h.quiet, h.once⟩
    ⟨⟨nofun, fun h => nomatch h.2⟩, nofun, ⟨nofun, fun hissued => absurd (hi.wakes.mpr hissued) hcall⟩,
      fun hrequester => Or.inr (Or.inr (hreq hrequester))⟩
    fun j hne hj => ⟨?_, ?_, hj.wakes, ?_⟩
  · rcases hres with ⟨_, harmed, _⟩ | ⟨_, _, rfl⟩
    · exact Or.inl ⟨harmed, hissuer⟩
    cases htrue
  · rcases hres with ⟨_, _, rfl⟩ | ⟨_, hissued, _⟩
    · cases hfalse
    exact ⟨hissued, hissuer⟩
  · exact fun hne => nomatch harmer.symm.trans hne
  · rw [hj.arms, harmer]
    exact ⟨fun h => absurd (Option.some.inj h.1).symm hne, fun h => nomatch h.2⟩
  · intro hstore
    have harms' := hj.arms.mp (by rw [hstore]; rfl)
    exact absurd (Option.some.inj (harmer.symm.trans harms'.1)).symm hne
  intro hrequester
  rcases hj.requested hrequester with hwake | hsettled
  · exact Or.inl hwake
  rcases hres with ⟨harming, _, _⟩ | ⟨_, hissued, _⟩
  · rw [harming] at hsettled
    rcases hsettled with hfalse | hfalse <;> cases hfalse
  exact Or.inr (Or.inr hissued)

theorem early (hcall : calls i = .arming) (hpend : g.waker = .pending) :
    Gated (Function.update calls i .armStore) g := by
  have hi := h.agrees i
  rw [hcall] at hi
  refine h.update h.toConsistent ⟨hi.arms, fun _ => hpend, ?_, ?_⟩ fun _ _ hj => hj
  · exact ⟨nofun, fun hissued => nomatch hi.wakes.mpr hissued⟩
  exact fun hrequester => Or.inr (Or.inl hpend)

end

end Gated

/-! ## Loads -/

section

variable {state : State ι}

section

variable (h : state.reload place = some pc)
include h

theorem reload_owns (hflight : place.owns = true → state.completion.inFlight = true) :
    pc.owns = place.owns := by
  cases place with
  | committing | commitExchange | aborting | abortExchange =>
    cases h
    have hin := hflight rfl
    rcases hcompl : state.completion <;> rw [hcompl] at hin <;> first | rfl | cases hin
  | beginning | beginExchange | timing | timeoutExchange =>
    cases h
    rcases state.completion <;> rfl
  | waking | wakeExchange =>
    cases h
    rcases state.waker <;> rfl
  | _ => cases h

theorem reload_timesOut :
    place.marks = false ∧ pc.timesOut = false := by
  cases place with
  | waking | wakeExchange =>
    cases h
    rcases state.waker <;> exact ⟨rfl, rfl⟩
  | _ =>
  cases h
  try rcases state.completion <;> exact ⟨rfl, rfl⟩

theorem reload_apart : place.apart ∧ pc.apart := by
  cases place with
  | waking | wakeExchange =>
    cases h
    rcases state.waker <;> exact ⟨⟨rfl, nofun⟩, rfl, nofun⟩
  | _ =>
  cases h
  try rcases state.completion <;> exact ⟨⟨rfl, nofun⟩, rfl, nofun⟩

theorem reload_wakes (hwakes : place.wakes = true) :
    pc.wakes = true ∨ state.waker = .pending ∨ state.waker = .issued := by
  cases place with
  | waking | wakeExchange =>
    cases h
    rcases state.waker
    · exact Or.inl rfl
    · exact Or.inl rfl
    · exact Or.inr (Or.inl rfl)
    exact Or.inr (Or.inr rfl)
  | _ => cases hwakes

/-- A timeout that finds the completion decided, or requested, leaves it so. -/
theorem reload_arbitrates (harbitrates : arbitrates pc = true) :
    state.completion ≠ .pending ∧ state.completion ≠ .operationInFlight := by
  cases place with
  | waking | wakeExchange =>
    cases h
    rcases hwaker : state.waker <;> rw [hwaker] at harbitrates <;> cases harbitrates
  | timing | timeoutExchange =>
    cases h
    refine ⟨fun hcompl => ?_, fun hcompl => ?_⟩
    · rw [hcompl] at harbitrates
      cases harbitrates
    rw [hcompl] at harbitrates
    cases harbitrates
  | _ =>
  cases h
  try rcases hcompl : state.completion <;> rw [hcompl] at harbitrates <;>
    cases harbitrates

end

end

/-! ## Steps -/

def State.gate (state : State ι) : Gate ι :=
  { waker := state.waker, wakeUps := state.wakeUps, armer := state.armer,
    armResult := state.armResult, requester := state.requester, issuer := state.issuer }

structure Inv (state : State ι) : Prop where
  arbitrated : Arbitrated state.calls state.completion state.kTimeout state.owner state.winners
    state.delivered
  gated : Gated state.calls state.gate

theorem Inv.initial : Inv ({} : State ι) where
  arbitrated := ⟨rfl, fun _ => ⟨nofun, nofun⟩, ⟨nofun, fun h => absurd rfl h⟩, nofun, fun _ => nofun,
    nofun, nofun⟩
  gated :=
    { unarmed := fun _ => ⟨Or.inl rfl, rfl⟩
      armed := nofun
      overtaken := nofun
      armer := fun _ => rfl
      quiet := fun _ => rfl
      once := Nat.zero_le _
      agrees := fun _ => ⟨⟨nofun, fun h => nomatch h.1⟩, nofun, ⟨nofun, fun h => nomatch h.1⟩, nofun⟩ }

variable [DecidableEq ι] {state state' : State ι}

theorem Inv.step (h : Inv state) (hstep : Step state i state') : Inv state' := by
  obtain ⟨harb, hgate⟩ := h
  cases hstep with
  | call role hidle hcancel harm =>
    cases role with
    | cancel => exact absurd rfl hcancel
    | arm => exact absurd rfl harm
    | _ => exact ⟨harb.move hidle rfl nofun nofun, hgate.move hidle ⟨rfl, nofun⟩ ⟨rfl, nofun⟩ nofun⟩
  | callCancel hcall | commit hcall | abort hcall =>
    exact ⟨harb.move hcall rfl nofun nofun, hgate.move hcall ⟨rfl, nofun⟩ ⟨rfl, nofun⟩ nofun⟩
  | callArm hidle honce =>
    exact ⟨harb.move hidle rfl nofun nofun, hgate.callArm hidle honce⟩
  | load hreload =>
    obtain ⟨hmarks, htimesOut⟩ := reload_timesOut hreload
    obtain ⟨hfrom, hto⟩ := reload_apart hreload
    refine ⟨.deliver (.move harb rfl (reload_owns hreload harb.inFlight_of_owns) ?_ ?_) ?_,
      hgate.move rfl hfrom hto (reload_wakes hreload)⟩
    · exact fun htrue => nomatch hmarks.symm.trans htrue
    · exact fun htrue => nomatch htimesOut.symm.trans htrue
    intro hdeliv
    rcases Bool.or_eq_true_iff.mp hdeliv with hbefore | harbitrates
    · exact harb.delivered_ne hbefore
    exact reload_arbitrates hreload harbitrates
  | complete hcall hpend =>
    have howner := harb.owner_eq (by rw [hpend]; rfl)
    refine ⟨harb.write (Or.inl howner) (by rw [hpend]; exact nofun) howner ?_ rfl rfl
      ⟨nofun, nofun⟩ fun _ => ⟨nofun, nofun⟩, hgate.move hcall ⟨rfl, nofun⟩ ⟨rfl, nofun⟩ nofun⟩
    rw [harb.winners_eq, hpend]
    rfl
  | @lose won hcall _ | @stop won hcall =>
    cases won <;>
      exact ⟨harb.move hcall rfl nofun nofun, hgate.move hcall ⟨rfl, nofun⟩ ⟨rfl, nofun⟩ nofun⟩
  | begin hcall hpend =>
    have howner := harb.owner_eq (by rw [hpend]; rfl)
    refine ⟨harb.write (Or.inl howner) (by rw [hpend]; exact nofun) rfl ?_ rfl rfl
      ⟨nofun, nofun⟩ fun hdeliv => absurd hpend (harb.delivered_ne hdeliv).1,
      hgate.move hcall ⟨rfl, nofun⟩ ⟨rfl, nofun⟩ nofun⟩
    rw [harb.winners_eq, hpend]
    rfl
  | commitExchange hcall =>
    have howner := (harb.owner_iff i).mp (by rw [hcall]; rfl)
    have hflight := harb.inFlight_of_owns (i := i) (by rw [hcall]; rfl)
    refine ⟨harb.write (Or.inr howner) ?_ rfl ?_ rfl rfl ⟨nofun, nofun⟩ fun _ => ⟨nofun, nofun⟩,
      hgate.move hcall ⟨rfl, nofun⟩ ⟨rfl, nofun⟩ nofun⟩
    · intro hwon
      rw [hwon] at hflight
      cases hflight
    rw [harb.winners_eq]
    rcases hcompl : state.completion <;> rw [hcompl] at hflight <;>
      first | rfl | cases hflight
  | rearm hcall hcompl =>
    have howner := (harb.owner_iff i).mp (by rw [hcall]; rfl)
    refine ⟨harb.write (Or.inr howner) (by rw [hcompl]; exact nofun) rfl ?_ rfl rfl
      ⟨nofun, nofun⟩ fun hdeliv => absurd hcompl (harb.delivered_ne hdeliv).2,
      hgate.move hcall ⟨rfl, nofun⟩ ⟨rfl, nofun⟩ nofun⟩
    rw [harb.winners_eq, hcompl]
    rfl
  | abortRequested hcall hcompl =>
    have howner := (harb.owner_iff i).mp (by rw [hcall]; rfl)
    refine ⟨harb.write (Or.inr howner) (by rw [hcompl]; exact nofun) rfl ?_ rfl rfl
      ⟨fun _ => rfl, fun _ => rfl⟩ fun _ => ⟨nofun, nofun⟩,
      hgate.move hcall ⟨rfl, nofun⟩ ⟨rfl, nofun⟩ nofun⟩
    rw [harb.winners_eq, hcompl]
    rfl
  | win hcall hpend =>
    have howner := harb.owner_eq (by rw [hpend]; rfl)
    refine ⟨harb.write (Or.inl howner) (by rw [hpend]; exact nofun) howner ?_ rfl rfl
      ⟨fun _ => rfl, fun _ => rfl⟩ fun _ => ⟨nofun, nofun⟩,
      hgate.move hcall ⟨rfl, nofun⟩ ⟨rfl, nofun⟩ nofun⟩
    rw [harb.winners_eq, hpend]
    rfl
  | request hcall hcompl =>
    exact ⟨(harb.requested hcompl).move hcall rfl nofun nofun,
      hgate.move hcall ⟨rfl, nofun⟩ ⟨rfl, nofun⟩ nofun⟩
  | markAborted hcall | mark hcall =>
    exact ⟨harb.mark (by rw [hcall]; rfl) rfl, hgate.move hcall ⟨rfl, nofun⟩ ⟨rfl, nofun⟩ nofun⟩
  | @done won hcall =>
    cases won with
    | true => exact ⟨harb.move hcall rfl nofun nofun, hgate.request hcall ⟨rfl, nofun⟩⟩
    | false => exact ⟨harb.move hcall rfl nofun nofun,
        hgate.move hcall ⟨rfl, nofun⟩ ⟨rfl, nofun⟩ nofun⟩
  | requestWake hcall =>
    exact ⟨harb.move hcall rfl nofun nofun, hgate.request hcall ⟨rfl, nofun⟩⟩
  | pend hcall harming => exact ⟨harb.move hcall rfl nofun nofun, hgate.pend hcall harming⟩
  | issue hcall harmed => exact ⟨harb.move hcall rfl nofun nofun, hgate.issue hcall harmed⟩
  | wakeUp hcall => exact ⟨harb.move hcall rfl nofun nofun, hgate.wakeUp hcall⟩
  | armed hcall harming =>
    exact ⟨harb.move hcall rfl nofun nofun,
      hgate.armReturn (by rw [hcall]; rfl) rfl (Or.inl ⟨harming, rfl, rfl⟩)⟩
  | early hcall hpend => exact ⟨harb.move hcall rfl nofun nofun, hgate.early hcall hpend⟩
  | unarmed hcall hwaker =>
    have hres := ((hgate.agrees i).arms.mp (by rw [hcall]; rfl)).2
    have hunarmed := (hgate.unarmed hres).1
    rcases hwaker with hwaker | hwaker <;> rcases hunarmed with hst | hst <;>
      exact nomatch hwaker.symm.trans hst
  | consume hcall =>
  have hpend := (hgate.agrees i).consumes hcall
  exact ⟨harb.move hcall rfl nofun nofun,
    hgate.armReturn (by rw [hcall]; rfl) rfl (Or.inr ⟨hpend, rfl, rfl⟩)⟩

theorem Runs.refl (state : State ι) : Runs state state := Relation.ReflTransGen.refl

theorem Runs.step {start : State ι} (hruns : Runs start state) (hstep : Step state i state') :
    Runs start state' :=
  Relation.ReflTransGen.tail hruns ⟨i, hstep⟩

theorem Runs.next (_ : Runs start state) : Runs state state := Runs.refl state

theorem Inv.of_runs (h : Inv state) (hruns : Runs state state') : Inv state' := by
  induction hruns with
  | refl => exact h
  | tail _ hstep ih =>
  obtain ⟨_, hstep⟩ := hstep
  exact ih.step hstep

theorem Inv.of_reachable (h : Reachable state) : Inv state :=
  Inv.initial.of_runs h

/-! ## The winner stays -/

theorem Step.completion_eq (hstep : Step state i state') (h : Inv state)
    (hdecided : state.completion.winners ≠ []) : state'.completion = state.completion := by
  have hpend : state.completion ≠ .pending := by
    intro heq
    rw [heq] at hdecided
    exact hdecided rfl
  have hflight : state.completion.inFlight = false := by
    rcases hcompl : state.completion <;> rw [hcompl] at hdecided <;>
      first | rfl | exact absurd rfl hdecided
  cases hstep with
  | complete _ heq | begin _ heq | win _ heq => exact absurd heq hpend
  | rearm _ heq | abortRequested _ heq | request _ heq =>
    rw [heq] at hflight
    cases hflight
  | commitExchange hcall =>
    have howns := h.arbitrated.inFlight_of_owns (i := i) (by rw [hcall]; rfl)
    exact nomatch howns.symm.trans hflight
  | @done won => cases won <;> rfl
  | _ => rfl

theorem completion_of_runs (hruns : Runs state state') (h : Inv state)
    (hdecided : state.completion.winners ≠ []) : state'.completion = state.completion := by
  induction hruns with
  | refl => rfl
  | tail hbefore hstep ih =>
  obtain ⟨_, hstep⟩ := hstep
  rw [hstep.completion_eq (h.of_runs hbefore) (by rwa [ih]), ih]

/-! ## A timeout during an operation that aborts -/

theorem Step.calls_eq (hstep : Step state i state') (hne : j ≠ i) :
    state'.calls j = state.calls j := by
  cases hstep with
  | @done won => cases won <;> exact update_of_ne hne _ _
  | _ => exact update_of_ne hne _ _

/-- The timeout has won, or waits for the owner to abort. -/
def Expiring (state : State ι) : Prop :=
  state.completion = .timeoutWon ∨
    state.completion = .timeoutRequested ∧
      ∃ j, state.owner = some j ∧ (state.calls j).aborts = true

omit [DecidableEq ι] in
theorem Expiring.of_aborts (h : Inv state) (hdeliv : state.delivered = true)
    (haborts : (state.calls i).aborts = true) : Expiring state := by
  have howns := Pc.owns_of_aborts haborts
  have hflight := h.arbitrated.inFlight_of_owns howns
  refine Or.inr ⟨?_, i, (h.arbitrated.owner_iff i).mp howns, haborts⟩
  have hne := (h.arbitrated.delivered_ne hdeliv).2
  rcases hcompl : state.completion
  case timeoutRequested => rfl
  case operationInFlight => exact absurd hcompl hne
  all_goals
    rw [hcompl] at hflight
    cases hflight

theorem Expiring.step_owner (hstep : Step state i state')
    (hcompl : state.completion = .timeoutRequested)
    (howner : state.owner = some i) (haborts : (state.calls i).aborts = true) :
    Expiring state' := by
  cases hstep with
  | @load pc hreload =>
    refine Or.inr ⟨hcompl, i, howner, ?_⟩
    show (Function.update state.calls i pc i).aborts = true
    rw [update_self]
    rcases hplace : state.calls i <;> rw [hplace] at haborts hreload <;>
      first | (cases haborts; done) | cases hreload
    all_goals
      rw [hcompl]
      rfl
  | rearm _ heq => exact nomatch heq.symm.trans hcompl
  | abortRequested => exact Or.inl rfl
  | call _ hcall | callCancel hcall | callArm hcall | complete hcall | lose hcall | stop hcall
  | begin hcall | commit hcall | abort hcall | commitExchange hcall | markAborted hcall | win hcall
  | request hcall | mark hcall | done hcall | requestWake hcall | pend hcall | issue hcall
  | wakeUp hcall | armed hcall | early hcall | unarmed hcall | consume hcall =>
  rw [hcall] at haborts
  cases haborts

/-- The other calls leave the decision to the owner. -/
theorem Step.requested_eq (hstep : Step state i state') (h : Inv state)
    (hcompl : state.completion = .timeoutRequested) (howner : state.owner ≠ some i) :
    state'.completion = .timeoutRequested ∧ state'.owner = state.owner := by
  have howns : (state.calls i).owns = false := by
    rcases hplace : (state.calls i).owns
    · rfl
    exact absurd ((h.arbitrated.owner_iff i).mp hplace) howner
  cases hstep with
  | complete _ heq | begin _ heq | win _ heq | request _ heq =>
    exact nomatch heq.symm.trans hcompl
  | commitExchange hcall | rearm hcall | abortRequested hcall =>
    rw [hcall] at howns
    cases howns
  | @done won => cases won <;> exact ⟨hcompl, rfl⟩
  | _ => exact ⟨hcompl, rfl⟩

theorem Expiring.step (hexpiring : Expiring state) (h : Inv state) (hstep : Step state i state') :
    Expiring state' := by
  rcases hexpiring with hwon | ⟨hcompl, j, howner, haborts⟩
  · left
    rw [hstep.completion_eq h (by rw [hwon]; exact nofun)]
    exact hwon
  rcases eq_or_ne j i with rfl | hne
  · exact Expiring.step_owner hstep hcompl howner haborts
  have hother : state.owner ≠ some i := by
    rw [howner]
    exact fun heq => hne (Option.some.inj heq)
  obtain ⟨hcompl', howner'⟩ := hstep.requested_eq h hcompl hother
  refine Or.inr ⟨hcompl', j, howner'.trans howner, ?_⟩
  rw [hstep.calls_eq hne]
  exact haborts

theorem Expiring.of_runs (hruns : Runs state state') (h : Inv state) (hexpiring : Expiring state) :
    Expiring state' := by
  induction hruns with
  | refl => exact hexpiring
  | tail hbefore hstep ih =>
  obtain ⟨_, hstep⟩ := hstep
  exact ih.step (h.of_runs hbefore) hstep

/-! ## When all have returned -/

/-- No call is under way. -/
def State.Final (state : State ι) : Prop := ∀ i, (state.calls i).atRest = true

section

variable (h : Inv state) (hfinal : state.Final)

include h hfinal

omit [DecidableEq ι]

theorem not_inFlight_of_final : state.completion.inFlight = false := by
  rcases hflight : state.completion.inFlight
  · rfl
  obtain ⟨i, howner⟩ := Option.ne_none_iff_exists'.mp (h.arbitrated.inFlight_iff.mp hflight)
  have howns := (h.arbitrated.owner_iff i).mpr howner
  exact nomatch howns.symm.trans (Pc.not_owns_of_atRest (hfinal i))

theorem timeouted_of_final (hwon : state.completion = .timeoutWon) : state.timeouted = true := by
  rcases h.arbitrated.marked hwon with hflag | ⟨i, hmarks⟩
  · exact hflag
  exact nomatch hmarks.symm.trans (Pc.not_marks_of_atRest (hfinal i))

theorem winners_of_delivered (hdeliv : state.delivered = true) :
    state.winners = [.operation] ∨ state.winners = [.timeout] ∧ state.timeouted = true := by
  have hflight := not_inFlight_of_final h hfinal
  have hne := (h.arbitrated.delivered_ne hdeliv).1
  rw [h.arbitrated.winners_eq]
  rcases hcompl : state.completion
  case pending => exact absurd hcompl hne
  case operationWon => exact Or.inl rfl
  case timeoutWon => exact Or.inr ⟨rfl, timeouted_of_final h hfinal hcompl⟩
  all_goals
    rw [hcompl] at hflight
    cases hflight

theorem winners_of_expiring (hexpiring : Expiring state) :
    state.winners = [.timeout] ∧ state.timeouted = true := by
  rcases hexpiring with hwon | ⟨_, i, _, haborts⟩
  · refine ⟨?_, timeouted_of_final h hfinal hwon⟩
    rw [h.arbitrated.winners_eq, hwon]
    rfl
  have howns := Pc.owns_of_aborts haborts
  exact nomatch howns.symm.trans (Pc.not_owns_of_atRest (hfinal i))

/-- Where `arm` has been called and a wake-up requested, `arm` says so or the one that waits is woken. -/
theorem wakeUps_of_final (harmer : state.armer ≠ none) (hrequester : state.requester ≠ none) :
    state.armResult = some false ∧ state.wakeUps = 0 ∨
      state.armResult = some true ∧ state.wakeUps = 1 := by
  obtain ⟨a, harmer⟩ := Option.ne_none_iff_exists'.mp harmer
  obtain ⟨r, hrequester⟩ := Option.ne_none_iff_exists'.mp hrequester
  have hres : state.armResult ≠ none := by
    intro hnone
    have harms := (h.gated.agrees a).arms.mpr ⟨harmer, hnone⟩
    exact nomatch harms.symm.trans (Pc.apart_of_atRest (hfinal a)).1
  have hwaker : state.waker = .pending ∨ state.waker = .issued := by
    rcases (h.gated.agrees r).requested hrequester with hwakes | hsettled
    · exact nomatch hwakes.symm.trans (Pc.not_wakes_of_atRest (hfinal r))
    exact hsettled
  rcases hcase : state.armResult with _ | _ | _
  · exact absurd hcase hres
  · exact Or.inl ⟨rfl, h.gated.quiet (h.gated.overtaken hcase).2⟩
  right
  refine ⟨rfl, ?_⟩
  rcases h.gated.armed hcase with ⟨harmed, _⟩ | ⟨_, hissuer⟩
  · rcases hwaker with hst | hst <;> exact nomatch harmed.symm.trans hst
  obtain ⟨k, hissuer⟩ := Option.ne_none_iff_exists'.mp hissuer
  have honce : state.wakeUps ≤ 1 := h.gated.once
  have hzero : state.wakeUps ≠ 0 := by
    intro hzero
    have hwake := (h.gated.agrees k).wakes.mpr ⟨hissuer, hzero⟩
    exact absurd hwake (Pc.apart_of_atRest (hfinal k)).2
  omega

end

/-- From any reachable state on, in any order of the steps: there is at most one winner, which stays;
only a timeout that has won is said to have timed out; one that comes while the operation is on its way
to abort wins in the end; and a wake-up that has been requested comes once, unless `arm` has returned
`false`. -/
theorem timeout_arbitrated_once (hreachable : Reachable state) (hruns : Runs state state') :
    state'.winners.length ≤ 1 ∧
    (∀ winner ∈ state.winners, state'.winners = [winner]) ∧
    (state'.timeouted = true → state'.winners = [.timeout]) ∧
    (state'.delivered = true → state'.Final →
      state'.winners = [.operation] ∨ state'.winners = [.timeout] ∧ state'.timeouted = true) ∧
    (state.delivered = true → ∀ i, (state.calls i).aborts = true → state'.Final →
      state'.winners = [.timeout] ∧ state'.timeouted = true) ∧
    (state'.armer ≠ none → state'.requester ≠ none → state'.Final →
      state'.armResult = some false ∧ state'.wakeUps = 0 ∨
        state'.armResult = some true ∧ state'.wakeUps = 1) := by
  have h := Inv.of_reachable hreachable
  have h' := h.of_runs hruns
  refine ⟨?_, fun winner hmem => ?_, fun hflag => ?_, fun hdeliv hfinal =>
    winners_of_delivered h' hfinal hdeliv, fun hdeliv i haborts hfinal =>
    winners_of_expiring h' hfinal (.of_runs hruns h (.of_aborts h hdeliv haborts)),
    fun harmer hrequester hfinal => wakeUps_of_final h' hfinal harmer hrequester⟩
  · rw [h'.arbitrated.winners_eq]
    rcases state'.completion <;> decide
  · rw [h.arbitrated.winners_eq] at hmem
    have hstays := completion_of_runs hruns h (List.ne_nil_of_mem hmem)
    rw [h'.arbitrated.winners_eq, hstays]
    rcases hcompl : state.completion <;> rw [hcompl] at hmem <;>
      first | (cases hmem; done) | rw [List.mem_singleton.mp hmem]; rfl
  rw [h'.arbitrated.winners_eq, h'.arbitrated.flag hflag]
  rfl

/-- A timeout comes during an operation, which aborts. -/
theorem timeout_arbitrated_abort : ∃ state state' : State (Fin 3),
    Reachable state ∧ Runs state state' ∧ state'.winners = [.timeout] ∧ state'.timeouted = true ∧
      state'.armResult = some true ∧ state'.wakeUps = 1 := by
  have harmed := (Runs.refl {}).step (.callArm (i := (2 : Fin 3)) rfl rfl)
    |>.step (.armed (i := 2) rfl rfl)
  have hbegun := harmed.step (.call (i := 0) .tryBeginOperation rfl nofun nofun)
    |>.step (.load (i := 0) rfl) |>.step (.begin (i := 0) rfl rfl)
  have haborts := hbegun.step (.abort (i := 0) rfl) |>.step (.load (i := 0) rfl)
  have hreachable := haborts.step (.call (i := 1) .handleTimeout rfl nofun nofun)
    |>.step (.load (i := 1) rfl) |>.step (.request (i := 1) rfl rfl) |>.step (.done (i := 1) rfl)
  have hwon := hreachable.next.step (.load (i := 0) rfl) |>.step (.abortRequested (i := 0) rfl rfl)
    |>.step (.markAborted (i := 0) rfl)
  have hruns := hwon.step (.requestWake (i := 0) rfl) |>.step (.load (i := 0) rfl)
    |>.step (.issue (i := 0) rfl rfl) |>.step (.wakeUp (i := 0) rfl)
  obtain ⟨_, _, _, _, haborted, hwoken⟩ := timeout_arbitrated_once hreachable hruns
  obtain ⟨hwinners, htimeouted⟩ := haborted rfl 0 rfl fun | 0 => rfl | 1 => rfl | 2 => rfl
  rcases hwoken nofun nofun fun | 0 => rfl | 1 => rfl | 2 => rfl with ⟨hfalse, _⟩ | ⟨htrue, honce⟩
  · cases hfalse
  · exact ⟨_, _, hreachable, hruns, hwinners, htimeouted, htrue, honce⟩

end Galay.Kernel.TimeoutTimer
