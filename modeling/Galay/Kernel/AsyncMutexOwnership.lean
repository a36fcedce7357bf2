import Galay.Kernel.AsyncMutex

/-!
# Who owns the asynchronous mutex

A waiter that has been granted the lock and whose timer fires, in either order, before its task runs
on, is told that it timed out, and nobody unlocks. Apart from that the lock has one owner.
-/

namespace Galay.Kernel.AsyncMutex

open Function (update update_eq_self update_idem update_of_ne update_self forall_update_iff)

variable {ι : Type*}

/-- It has been told that it holds the lock and has not unlocked, or it has been granted the lock
and will be told so. -/
def Attempt.Owns (attempt : Attempt) : Prop :=
  attempt.phase = .holding ∨
    attempt.phase = .suspended ∧ attempt.granted = true ∧ attempt.timeouted = false

/-- While the lock is taken it has exactly one owner, and no attempt that was told a timeout has been
granted the lock. -/
structure Safe (state : State ι) : Prop where
  owner : state.locked = true → ∃! i, (state.attempts i).Owns
  timedOut : ∀ i, (state.attempts i).phase = .timedOut → (state.attempts i).granted = false

/-! ## The invariant -/

structure Attempt.Ok (attempt : Attempt) : Prop where
  active : attempt.active = true → attempt.phase = .suspended ∧ attempt.granted = false
  granted : attempt.granted = true → attempt.phase ≠ .timedOut ∧
    (attempt.phase = .suspended → attempt.timeouted = false)
  fresh : attempt.phase = .idle ∨ attempt.phase = .refused →
    attempt.granted = false ∧ attempt.active = false ∧ attempt.completion = .pending
  suspended : attempt.phase = .suspended → attempt.completion ≠ .operationWon

theorem Attempt.not_owns {attempt : Attempt} (hph : attempt.phase ≠ .holding)
    (hgranted : attempt.granted = false) : ¬ attempt.Owns := by
  rintro (hholding | ⟨-, hnot, -⟩)
  · exact hph hholding
  rw [hgranted] at hnot
  cases hnot

/-- The lock is taken where it has an owner, and it has one at most. -/
structure Inv (locked : Bool) (attempts : ι → Attempt) : Prop where
  ok : ∀ i, (attempts i).Ok
  locked_iff : locked = true ↔ ∃ i, (attempts i).Owns
  unique : ∀ i j, (attempts i).Owns → (attempts j).Owns → i = j

theorem Inv.start : Inv (({} : State ι).locked) ({} : State ι).attempts where
  ok i := ⟨nofun, nofun, fun _ => ⟨rfl, rfl, rfl⟩, nofun⟩
  locked_iff := ⟨nofun, by rintro ⟨i, h | ⟨h, -⟩⟩ <;> cases h⟩
  unique i j := by rintro (h | ⟨h, -⟩) <;> cases h

theorem Inv.safe {state : State ι} (h : Inv state.locked state.attempts) : Safe state where
  owner hlocked := by
    obtain ⟨i, hi⟩ := h.locked_iff.1 hlocked
    exact ⟨i, hi, fun j hj => h.unique j i hj hi⟩
  timedOut i hph := by
    cases hgranted : (state.attempts i).granted with
    | false => rfl
    | true => exact absurd hph ((h.ok i).granted hgranted).1

theorem not_safe_of_no_owner {state : State ι} (hlocked : state.locked = true)
    (hnone : ∀ i, ¬ (state.attempts i).Owns) : ¬ Safe state := by
  intro hsafe
  obtain ⟨i, hi, -⟩ := hsafe.owner hlocked
  exact hnone i hi

section Update

variable [DecidableEq ι] {locked : Bool} {attempts : ι → Attempt} {i : ι} {attempt : Attempt}

theorem Inv.ok_update (h : Inv locked attempts) (hok : attempt.Ok) :
    ∀ j, (update attempts i attempt j).Ok :=
  (forall_update_iff _ fun _ (attempt : Attempt) => attempt.Ok).2 ⟨hok, fun j _ => h.ok j⟩

theorem owns_update_iff (howns : attempt.Owns ↔ (attempts i).Owns) :
    ∀ j, (update attempts i attempt j).Owns ↔ (attempts j).Owns :=
  (forall_update_iff _ fun j (attempt : Attempt) => attempt.Owns ↔ (attempts j).Owns).2
    ⟨howns, fun _ _ => Iff.rfl⟩

/-- A change of an attempt that leaves the owner alone. -/
theorem Inv.keep (h : Inv locked attempts) (hok : attempt.Ok)
    (howns : attempt.Owns ↔ (attempts i).Owns) : Inv locked (update attempts i attempt) where
  ok := h.ok_update hok
  locked_iff := by
    rw [h.locked_iff]
    exact exists_congr fun j => (owns_update_iff howns j).symm
  unique j k hj hk :=
    h.unique j k ((owns_update_iff howns j).1 hj) ((owns_update_iff howns k).1 hk)

/-- An attempt that neither holds the lock nor has been granted it goes on. -/
theorem Inv.keep_ungranted (h : Inv locked attempts)
    (hact : attempt.active = true → attempt.phase = .suspended)
    (hgranted : attempt.granted = false) (hgranted' : (attempts i).granted = false)
    (hfresh : attempt.phase = .idle ∨ attempt.phase = .refused →
      attempt.active = false ∧ attempt.completion = .pending)
    (hsuspended : attempt.phase = .suspended → attempt.completion ≠ .operationWon)
    (hph : attempt.phase ≠ .holding) (hph' : (attempts i).phase ≠ .holding) :
    Inv locked (update attempts i attempt) := by
  refine h.keep ⟨fun h => ⟨hact h, hgranted⟩, fun hnot => ?_, fun h => ⟨hgranted, hfresh h⟩,
    hsuspended⟩ (iff_of_false (Attempt.not_owns hph hgranted) (Attempt.not_owns hph' hgranted'))
  rw [hgranted] at hnot
  cases hnot

section

variable (h : Inv false attempts)
include h

theorem Inv.not_owns (j : ι) : ¬ (attempts j).Owns := by
  intro hj
  cases h.locked_iff.2 ⟨j, hj⟩

/-- The only owner after the free lock is taken. -/
theorem Inv.eq_of_owns (hj : (update attempts i attempt j).Owns) : j = i := by
  by_contra hne
  rw [update_of_ne hne] at hj
  exact h.not_owns j hj

theorem Inv.acquire (hok : attempt.Ok) (howns : attempt.Owns) :
    Inv true (update attempts i attempt) where
  ok := h.ok_update hok
  locked_iff := by
    refine ⟨fun _ => ⟨i, ?_⟩, fun _ => rfl⟩
    rw [update_self]
    exact howns
  unique j k hj hk := (h.eq_of_owns hj).trans (h.eq_of_owns hk).symm

/-- The lock is taken for an attempt that will not know. -/
theorem Inv.acquire_lost (hnot : ¬ attempt.Owns) (j : ι) :
    ¬ (update attempts i attempt j).Owns := by
  intro hj
  obtain rfl := h.eq_of_owns hj
  rw [update_self] at hj
  exact hnot hj

end

theorem Inv.disown (h : Inv locked attempts) (hi : (attempts i).Owns) (hnot : ¬ attempt.Owns)
    (j : ι) : ¬ (update attempts i attempt j).Owns := by
  intro hj
  exact (forall_update_iff _ fun _ (attempt : Attempt) => ¬ attempt.Owns).2
    ⟨hnot, fun j hne hj => hne (h.unique j i hj hi)⟩ j hj

theorem Inv.release (h : Inv locked attempts) (hi : (attempts i).Owns) (hok : attempt.Ok)
    (hnot : ¬ attempt.Owns) : Inv false (update attempts i attempt) where
  ok := h.ok_update hok
  locked_iff := ⟨nofun, fun ⟨j, hj⟩ => absurd hj (h.disown hi hnot j)⟩
  unique j _ hj := absurd hj (h.disown hi hnot j)

end Update

/-! ## The waiter that a call wakes -/

variable [DecidableEq ι]

namespace State

variable (state : State ι)

/-- The first active waiter in the order of the queue. -/
def firstActive (picks : List ι) : Option ι :=
  picks.find? fun i => (state.attempts i).active

variable {state} {next : State ι}

theorem wakeLoop_cases (hfree : state.locked = false) (h : state.wakeLoop picks = some next) :
    state.firstActive picks = none ∧ next.locked = false ∧ next.attempts = state.attempts ∨
    ∃ i, state.firstActive picks = some i ∧ (state.attempts i).active = true ∧
      next.locked = true ∧ next.attempts = update state.attempts i
        { state.attempts i with active := false, granted := true } := by
  induction picks generalizing state with
  | nil =>
    unfold wakeLoop at h
    split at h
    · cases h
      exact .inl ⟨rfl, hfree, rfl⟩
    cases h
  | cons waiter picks ih =>
  unfold wakeLoop at h
  split at h
  case isFalse => cases h
  simp only at h
  unfold firstActive
  rw [List.find?_cons]
  cases hact : (state.attempts waiter).active with
  | false =>
    rw [hact, if_neg nofun] at h
    exact @ih { state with waiters := state.waiters.erase waiter } hfree h
  | true =>
  rw [hact, if_pos rfl] at h
  right
  refine ⟨waiter, rfl, hact, ?_⟩
  simp only [tryLock, modify, hfree, Bool.false_eq_true, if_false, Option.some.injEq] at h
  subst h
  exact ⟨rfl, by simp only [update_self, update_idem]⟩

end State

/-- Whether a call keeps grants and timeouts apart: no timer fires for a waiter that has been granted
the lock, and the waiter that a call wakes has a timer that has not fired and could be added. -/
def Clean (state : State ι) : Call ι → Prop
  | .suspend i timerAdded picks => state.locked = false →
    ∀ j, (state.enqueueWaiter i).firstActive picks = some j →
      (state.attempts j).timeouted = false ∧
        (j = i → (state.attempts i).timed = true → timerAdded = true)
  | .unlock _ picks =>
    ∀ j, state.firstActive picks = some j → (state.attempts j).timeouted = false
  | .handleTimeout i => (state.attempts i).granted = false
  | _ => True

/-! ## One call -/

section Calls

variable {state next : State ι} {i : ι} {picks : List ι}

theorem wake_cases (hwake : state.wakeNextWaiterIfUnlocked picks = some next) :
    (state.locked = true ∨ state.firstActive picks = none) ∧ next.locked = state.locked ∧
      next.attempts = state.attempts ∨
    ∃ j, state.locked = false ∧ state.firstActive picks = some j ∧
      (state.attempts j).active = true ∧ next.locked = true ∧
      next.attempts = update state.attempts j
        { state.attempts j with active := false, granted := true } := by
  unfold State.wakeNextWaiterIfUnlocked at hwake
  cases hlocked : state.locked with
  | true =>
    rw [hlocked, if_pos rfl, Option.some.injEq] at hwake
    subst hwake
    exact .inl ⟨.inl rfl, hlocked, rfl⟩
  | false =>
  rw [hlocked, if_neg nofun] at hwake
  rcases State.wakeLoop_cases hlocked hwake with ⟨hnone, hfree, hsame⟩ | ⟨j, hfirst, hgrant⟩
  · exact .inl ⟨.inr hnone, hfree, hsame⟩
  exact .inr ⟨j, rfl, hfirst, hgrant⟩

/-- The waiter that is woken owns the lock, if its timer has not fired. -/
theorem Inv.grant (h : Inv false attempts) {j : ι}
    (hact : (attempts j).active = true) (htimer : (attempts j).timeouted = false) :
    Inv true (update attempts j { attempts j with active := false, granted := true }) := by
  obtain ⟨hph, -⟩ := (h.ok j).active hact
  refine h.acquire ⟨nofun, fun _ => ⟨?_, fun _ => htimer⟩, ?_, (h.ok j).suspended⟩
    (.inr ⟨hph, rfl, htimer⟩)
  · rw [hph]
    exact nofun
  rw [hph]
  rintro (hidle | hrefused) <;> contradiction

theorem Inv.grant_lost (h : Inv false attempts)
    (hact : (attempts j).active = true) (htimer : (attempts j).timeouted = true) (k : ι) :
    ¬ (update attempts j { attempts j with active := false, granted := true } k).Owns := by
  obtain ⟨hph, -⟩ := (h.ok j).active hact
  refine h.acquire_lost ?_ k
  rintro (hholding | ⟨-, -, hnot⟩)
  · rw [hph] at hholding
    cases hholding
  have hfalse : (attempts j).timeouted = false := hnot
  rw [htimer] at hfalse
  cases hfalse

section

variable (h : Inv state.locked state.attempts)
include h

theorem Inv.enqueueWaiter (hph : (state.attempts i).phase = .refused) :
    Inv (state.enqueueWaiter i).locked (state.enqueueWaiter i).attempts := by
  obtain ⟨hgranted, -, hpend⟩ := (h.ok i).fresh (.inr hph)
  refine h.keep_ungranted (fun _ => rfl) hgranted hgranted ?_ ?_ nofun (hph ▸ nofun)
  · rintro (hidle | hrefused) <;> contradiction
  rw [hpend]
  exact nofun

/-- A timer that fires for a waiter without the lock. -/
theorem Inv.completeTimeout (hph : (state.attempts i).phase = .suspended)
    (hgranted : (state.attempts i).granted = false) :
    Inv (state.modify i Attempt.completeTimeout).locked
      (state.modify i Attempt.completeTimeout).attempts := by
  unfold State.modify Attempt.completeTimeout
  split
  · refine h.keep_ungranted (fun _ => hph) hgranted hgranted ?_ nofun (hph ▸ nofun) (hph ▸ nofun)
    rw [hph]
    rintro (hidle | hrefused) <;> contradiction
  rw [update_eq_self]
  exact h

/-- A timer that fires for a waiter with the lock. -/
theorem Inv.completeTimeout_lost (hph : (state.attempts i).phase = .suspended)
    (hgranted : (state.attempts i).granted = true)
    (hpend : (state.attempts i).completion = .pending) (j : ι) :
    ¬ ((state.modify i Attempt.completeTimeout).attempts j).Owns := by
  have htimer : (state.attempts i).timeouted = false := by
    rw [Attempt.timeouted, hpend]
    rfl
  refine h.disown (.inr ⟨hph, hgranted, htimer⟩) ?_ j
  unfold Attempt.completeTimeout
  rw [if_pos hpend]
  rintro (hholding | ⟨-, -, hnot⟩)
  · rw [hph] at hholding
    cases hholding
  cases hnot

end

theorem Attempt.await_resume_of_pending {attempt : Attempt} (h : attempt.completion = .pending) :
    attempt.await_resume =
      { attempt with phase := .holding, active := false, completion := .operationWon } := by
  simp only [Attempt.await_resume, Attempt.timeouted, Attempt.cancel, Attempt.cancelWaiter, h,
    if_true]
  rfl

theorem Inv.await_resume (h : Inv state.locked state.attempts)
    (hph : (state.attempts i).phase = .suspended)
    (hwoken : (state.attempts i).granted = true ∨ (state.attempts i).timeouted = true) :
    Inv (state.modify i Attempt.await_resume).locked
      (state.modify i Attempt.await_resume).attempts := by
  unfold State.modify Attempt.await_resume
  cases htimer : (state.attempts i).timeouted with
  | true =>
    have hgranted : (state.attempts i).granted = false := by
      cases hgranted : (state.attempts i).granted with
      | false => rfl
      | true => rw [((h.ok i).granted hgranted).2 hph] at htimer; cases htimer
    rw [if_pos rfl]
    refine h.keep_ungranted nofun hgranted hgranted ?_ nofun nofun (hph ▸ nofun)
    rintro (hidle | hrefused) <;> contradiction
  | false =>
  have hgranted : (state.attempts i).granted = true := by
    rw [htimer] at hwoken
    exact hwoken.resolve_right nofun
  rw [if_neg nofun]
  refine h.keep ⟨nofun, ?_, ?_, nofun⟩ ⟨?_, ?_⟩
  · exact fun _ => ⟨nofun, nofun⟩
  · rintro (hidle | hrefused) <;> contradiction
  · exact fun _ => .inr ⟨hph, hgranted, htimer⟩
  exact fun _ => .inl rfl

theorem Inv.lock (h : Inv state.locked state.attempts)
    (hcall : state.call (.lock i timed) = some next) : Inv next.locked next.attempts := by
  simp only [State.call, State.tryLock] at hcall
  split at hcall
  case isFalse => cases hcall
  next hph =>
  obtain ⟨hgranted, hact, hpend⟩ := (h.ok i).fresh (.inl hph)
  cases hlocked : state.locked with
  | true =>
    simp only [hlocked, if_true, Option.some.injEq] at hcall
    subst hcall
    refine h.keep_ungranted (fun hnot => ?_) hgranted hgranted (fun _ => ⟨hact, hpend⟩) nofun
      nofun (hph ▸ nofun)
    rw [hact] at hnot
    cases hnot
  | false =>
  simp only [hlocked, Bool.false_eq_true, if_false, Option.some.injEq] at hcall
  subst hcall
  rw [hlocked] at h
  simp only [State.modify]
  rw [Attempt.await_resume_of_pending (by exact hpend)]
  refine h.acquire ⟨nofun, fun _ => ⟨nofun, nofun⟩, ?_, nofun⟩ (.inl rfl)
  rintro (hidle | hrefused) <;> contradiction

variable (state i) in
theorem timeouted_enqueueWaiter (j : ι) :
    ((state.enqueueWaiter i).attempts j).timeouted = (state.attempts j).timeouted := by
  have hall : ∀ j, (update state.attempts i
      { state.attempts i with phase := .suspended, active := true } j).timeouted =
        (state.attempts j).timeouted :=
    (forall_update_iff _ fun j (attempt : Attempt) =>
      attempt.timeouted = (state.attempts j).timeouted).2 ⟨rfl, fun _ _ => rfl⟩
  exact hall j

theorem Attempt.owns_of_completeTimeout {attempt : Attempt} (h : attempt.completeTimeout.Owns) :
    attempt.Owns := by
  unfold Attempt.completeTimeout at h
  split at h
  · rcases h with hholding | ⟨-, -, hnot⟩
    · exact .inl hholding
    cases hnot
  exact h

theorem owns_of_completeTimeout {j : ι}
    (h : ((state.modify i Attempt.completeTimeout).attempts j).Owns) :
    (state.attempts j).Owns := by
  exact (forall_update_iff state.attempts fun j (attempt : Attempt) =>
    attempt.Owns → (state.attempts j).Owns).2
    ⟨Attempt.owns_of_completeTimeout, fun _ _ => id⟩ j h

section

variable (h : Inv state.locked state.attempts)
include h

theorem Inv.suspend {timerAdded : Bool}
    (hcall : state.call (.suspend i timerAdded picks) = some next) :
    Clean state (.suspend i timerAdded picks) ∧ Inv next.locked next.attempts ∨
      ¬ Clean state (.suspend i timerAdded picks) ∧ ¬ Safe next := by
  simp only [State.call] at hcall
  split at hcall
  case isFalse => cases hcall
  next hph =>
  obtain ⟨mid, hwake, hnext⟩ := Option.map_eq_some_iff.1 hcall
  have hqueued := h.enqueueWaiter hph
  obtain ⟨hgranted, -, hpend⟩ := (h.ok i).fresh (.inr hph)
  have hself : (state.enqueueWaiter i).attempts i =
      { state.attempts i with phase := .suspended, active := true } := update_self ..
  rcases wake_cases hwake with ⟨hquiet, hlocked, hsame⟩ | ⟨j, hfree, hfirst, hact, hlocked, hgrant⟩
  · left
    have hmid : Inv mid.locked mid.attempts := by
      rw [hlocked, hsame]
      exact hqueued
    refine ⟨?_, ?_⟩
    · intro hfree j hfirst
      rcases hquiet with hheld | hnone
      · exact absurd hheld (by rw [show (state.enqueueWaiter i).locked = false from hfree]; exact nofun)
      rw [hnone] at hfirst
      cases hfirst
    subst hnext
    split
    · exact hmid.completeTimeout (by rw [hsame, hself]) (by rw [hsame, hself]; exact hgranted)
    exact hmid
  have htimer := timeouted_enqueueWaiter state i j
  rw [hfree] at hqueued
  cases hfired : (state.attempts j).timeouted with
  | true =>
    right
    refine ⟨fun hclean => ?_, ?_⟩
    · rw [(hclean hfree j hfirst).1] at hfired
      cases hfired
    have hlost := hqueued.grant_lost hact (htimer.trans hfired)
    rw [← hgrant] at hlost
    subst hnext
    split
    · exact not_safe_of_no_owner hlocked fun k hk => hlost k (owns_of_completeTimeout hk)
    exact not_safe_of_no_owner hlocked hlost
  | false =>
  have hmid : Inv mid.locked mid.attempts := by
    rw [hlocked, hgrant]
    exact hqueued.grant hact (htimer.trans hfired)
  have hclean : (j = i → (state.attempts i).timed = true → timerAdded = true) →
      Clean state (.suspend i timerAdded picks) := by
    intro hadded _ k hk
    obtain rfl : j = k := Option.some.inj (hfirst.symm.trans hk)
    exact ⟨hfired, hadded⟩
  by_cases hj : j = i
  · subst hj
    have hmid' : mid.attempts j =
        { state.attempts j with phase := .suspended, active := false, granted := true } := by
      rw [hgrant, update_self, hself]
    have htimed : (mid.attempts j).timed = (state.attempts j).timed := by rw [hmid']
    rw [htimed] at hnext
    subst hnext
    split
    · next hnot =>
      right
      refine ⟨fun hclean => ?_, not_safe_of_no_owner hlocked ?_⟩
      · have hadded := (hclean hfree j hfirst).2 rfl hnot.1
        rw [hnot.2] at hadded
        cases hadded
      exact hmid.completeTimeout_lost (by rw [hmid']) (by rw [hmid']) (by rw [hmid']; exact hpend)
    next hnot =>
    refine .inl ⟨hclean fun _ htrue => ?_, hmid⟩
    cases timerAdded with
    | true => rfl
    | false => exact absurd ⟨htrue, rfl⟩ hnot
  left
  refine ⟨hclean fun heq => absurd heq hj, ?_⟩
  have hmid' : mid.attempts i =
      { state.attempts i with phase := .suspended, active := true } := by
    rw [hgrant, update_of_ne (Ne.symm hj), hself]
  subst hnext
  split
  · exact hmid.completeTimeout (by rw [hmid']) (by rw [hmid']; exact hgranted)
  exact hmid

theorem Inv.suspendUnbound (hcall : state.call (.suspendUnbound i) = some next) :
    Inv next.locked next.attempts := by
  simp only [State.call] at hcall
  split at hcall
  case isFalse => cases hcall
  next hguard =>
  obtain ⟨hgranted, hact, hpend⟩ := (h.ok i).fresh (.inr hguard.1)
  cases hcall
  simp only [State.modify, Attempt.completeTimeout, hpend, if_true]
  refine h.keep_ungranted (fun _ => rfl) hgranted hgranted ?_ nofun nofun (hguard.1 ▸ nofun)
  rintro (hidle | hrefused) <;> contradiction

theorem Inv.unlock (hcall : state.call (.unlock i picks) = some next) :
    Clean state (.unlock i picks) ∧ Inv next.locked next.attempts ∨
      ¬ Clean state (.unlock i picks) ∧ ¬ Safe next := by
  simp only [State.call] at hcall
  split at hcall
  case isFalse => cases hcall
  next hph =>
  have hact : (state.attempts i).active = false := by
    cases hact : (state.attempts i).active with
    | false => rfl
    | true =>
    obtain ⟨hsuspended, -⟩ := (h.ok i).active hact
    rw [hph] at hsuspended
    cases hsuspended
  have hreleased : Inv false (update state.attempts i
      { state.attempts i with phase := .released }) := by
    refine h.release (.inl hph) ⟨?_, fun _ => ⟨nofun, nofun⟩, ?_, nofun⟩ ?_
    · intro hnot
      rw [hact] at hnot
      cases hnot
    · rintro (hidle | hrefused) <;> contradiction
    rintro (hholding | ⟨hsuspended, -⟩) <;> contradiction
  -- The attempt that unlocks is not an active waiter, so the first active one is the same.
  have hsame : ∀ j, (update state.attempts i
      { state.attempts i with phase := .released } j).active = (state.attempts j).active ∧
      (update state.attempts i
        { state.attempts i with phase := .released } j).timeouted = (state.attempts j).timeouted := by
    exact (forall_update_iff state.attempts fun j (attempt : Attempt) =>
      attempt.active = (state.attempts j).active ∧
        attempt.timeouted = (state.attempts j).timeouted).2 ⟨⟨rfl, rfl⟩, fun _ _ => ⟨rfl, rfl⟩⟩
  have hpicked : State.firstActive
      { state.modify i (fun attempt => { attempt with phase := .released }) with locked := false }
      picks = state.firstActive picks := by
    unfold State.firstActive
    congr 1
    funext j
    exact (hsame j).1
  rcases wake_cases hcall with ⟨hquiet, hlocked, hattempts⟩ |
    ⟨j, -, hfirst, hwaiting, hlocked, hgrant⟩
  · rw [hpicked] at hquiet
    refine .inl ⟨?_, ?_⟩
    · intro j hfirst
      rw [hquiet.resolve_left nofun] at hfirst
      cases hfirst
    rw [hlocked, hattempts]
    exact hreleased
  rw [hpicked] at hfirst
  have htimer : (update state.attempts i { state.attempts i with phase := .released } j).timeouted =
        (state.attempts j).timeouted := (hsame j).2
  cases hfired : (state.attempts j).timeouted with
  | true =>
    right
    refine ⟨fun hclean => ?_, not_safe_of_no_owner hlocked ?_⟩
    · rw [hclean j hfirst] at hfired
      cases hfired
    rw [hgrant]
    exact hreleased.grant_lost hwaiting (htimer.trans hfired)
  | false =>
  left
  refine ⟨fun k hk => ?_, ?_⟩
  · obtain rfl : j = k := Option.some.inj (hfirst.symm.trans hk)
    exact hfired
  rw [hlocked, hgrant]
  exact hreleased.grant hwaiting (htimer.trans hfired)

theorem Inv.handleTimeout (hcall : state.call (.handleTimeout i) = some next) :
    Clean state (.handleTimeout i) ∧ Inv next.locked next.attempts ∨
      ¬ Clean state (.handleTimeout i) ∧ ¬ Safe next := by
  simp only [State.call] at hcall
  split at hcall
  case isFalse => cases hcall
  next hguard =>
  cases hcall
  cases hgranted : (state.attempts i).granted with
  | false => exact .inl ⟨hgranted, h.completeTimeout hguard.1 hgranted⟩
  | true =>
  right
  have htimer := ((h.ok i).granted hgranted).2 hguard.1
  have hwon := (h.ok i).suspended hguard.1
  have hpend : (state.attempts i).completion = .pending := by
    unfold Attempt.timeouted at htimer
    cases hcompl : (state.attempts i).completion with
    | pending => rfl
    | operationWon => exact absurd hcompl hwon
    | timeoutWon =>
    rw [hcompl] at htimer
    cases htimer
  refine ⟨fun hclean => ?_, not_safe_of_no_owner ?_
    (h.completeTimeout_lost hguard.1 hgranted hpend)⟩
  · rw [show (state.attempts i).granted = false from hclean] at hgranted
    cases hgranted
  exact h.locked_iff.2 ⟨i, .inr ⟨hguard.1, hgranted, htimer⟩⟩

/-- A clean call keeps the invariant, and any other one leaves the lock without an owner. -/
theorem Inv.call {call : Call ι} (hcall : state.call call = some next) :
    Clean state call ∧ Inv next.locked next.attempts ∨ ¬ Clean state call ∧ ¬ Safe next := by
  cases call with
  | lock i timed => exact .inl ⟨trivial, h.lock hcall⟩
  | suspend i timerAdded picks => exact h.suspend hcall
  | suspendUnbound i => exact .inl ⟨trivial, h.suspendUnbound hcall⟩
  | unlock i picks => exact h.unlock hcall
  | handleTimeout i => exact h.handleTimeout hcall
  | resume i =>
  simp only [State.call] at hcall
  split at hcall
  case isFalse => cases hcall
  next hguard =>
  cases hcall
  exact .inl ⟨trivial, h.await_resume hguard.1 hguard.2⟩

end

end Calls

/-! ## Every run -/

/-- Every state of the run that the calls make, as far as they can be made, is safe. -/
def SafeRun (state : State ι) : List (Call ι) → Prop
  | [] => Safe state
  | call :: calls => Safe state ∧ ∀ next, state.call call = some next → SafeRun next calls

/-- Every call of the run is clean. -/
def CleanRun (state : State ι) : List (Call ι) → Prop
  | [] => True
  | call :: calls =>
    ∀ next, state.call call = some next → Clean state call ∧ CleanRun next calls

theorem SafeRun.safe {state : State ι} (h : SafeRun state calls) : Safe state := by
  cases calls with
  | nil => exact h
  | cons call calls => exact h.1

theorem Inv.safeRun_iff (h : Inv state.locked state.attempts)
    (calls : List (Call ι)) : SafeRun state calls ↔ CleanRun state calls := by
  induction calls generalizing state with
  | nil => exact ⟨fun _ => trivial, fun _ => h.safe⟩
  | cons call calls ih =>
  constructor
  · rintro ⟨-, hrun⟩ next hcall
    rcases h.call hcall with ⟨hclean, hnext⟩ | ⟨-, hunsafe⟩
    · exact ⟨hclean, (ih hnext).1 (hrun next hcall)⟩
    exact absurd (hrun next hcall).safe hunsafe
  intro hrun
  refine ⟨h.safe, fun next hcall => ?_⟩
  obtain ⟨hclean, hrest⟩ := hrun next hcall
  rcases h.call hcall with ⟨-, hnext⟩ | ⟨hnot, -⟩
  · exact (ih hnext).2 hrest
  exact absurd hclean hnot

/-- The lock has exactly one owner while it is taken, and no attempt that was told a timeout has it,
in all states of a run from the start, exactly when all calls of the run are clean. -/
theorem safeRun_iff_cleanRun (calls : List (Call ι)) :
    SafeRun ({} : State ι) calls ↔ CleanRun {} calls :=
  Inv.start.safeRun_iff calls

/-- The first attempt unlocks and grants the lock to the second, whose timer fires before it runs
on: it is told a timeout, and the lock stays taken. -/
theorem not_safeRun_grantedThenTimeout : ¬ SafeRun ({} : State Bool)
    [.lock false false, .lock true true, .suspend true true [], .unlock false [true],
      .handleTimeout true, .resume true] := by
  intro hrun
  have hunlocked := (((hrun.2 _ rfl).2 _ rfl).2 _ rfl).2 _ rfl
  have hresumed : Safe _ := (hunlocked.2 _ rfl).2 _ rfl
  cases hresumed.timedOut true rfl

end Galay.Kernel.AsyncMutex
