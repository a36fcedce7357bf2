import Galay.Kernel.AsyncMutexSteps

/-!
# When the asynchronous mutex strands a waiter

While the lock is free and an active waiter is in the queue, some thread has still to try the lock.
The one way out of this is a waker that fails to take the lock and puts its waiter back after the
thread that held the lock has looked at the queue.
-/

namespace Galay.Kernel.AsyncMutex.Steps

open Function (update update_of_ne update_self)
open List

variable {τ ι : Type*} [DecidableEq τ] [DecidableEq ι]

/-! ## What a step can do -/

inductive Moves (state : State τ ι) : Event τ ι → State τ ι → Prop
  | refuse {i : ι} (hph : state.phase i = .idle) (hlocked : state.locked = true) :
    Moves state (.lock i) (state.setPhase i .refused)
  | acquire {i : ι} (hph : state.phase i = .idle) (hlocked : state.locked = false) :
    Moves state (.lock i) { state.setPhase i .holding with locked := true }
  | suspend {t : τ} {i : ι} (hpc : state.threads t = .outside) (hph : state.phase i = .refused) :
    Moves state (.suspend t i)
      ((({ state with waiters := state.waiters ++ [i] }.setActive i true).setPhase i
        .suspended).goto t .loading)
  | unlock {t : τ} {i : ι} (hpc : state.threads t = .outside) (hph : state.phase i = .holding) :
    Moves state (.unlock t i) ({ state.setPhase i .released with locked := false }.goto t .loading)
  | busy {t : τ} (hpc : state.threads t = .loading) (hlocked : state.locked = true) :
    Moves state (.load t) (state.goto t .outside)
  | free {t : τ} (hpc : state.threads t = .loading) (hlocked : state.locked = false) :
    Moves state (.load t) (state.goto t .dequeuing)
  | empty {t : τ} (hpc : state.threads t = .dequeuing) (hempty : state.waiters = []) :
    Moves state (.dequeue t none) (state.goto t .outside)
  | take {t : τ} {waiter : ι} (hpc : state.threads t = .dequeuing) (hmem : waiter ∈ state.waiters) :
    Moves state (.dequeue t (some waiter))
      ({ state with waiters := state.waiters.erase waiter }.goto t (.deactivating waiter))
  | deactivate {t : τ} {waiter : ι} (hpc : state.threads t = .deactivating waiter) :
    Moves state (.deactivate t) ((state.setActive waiter false).goto t (.locking waiter))
  | skip {t : τ} {waiter : ι} (hpc : state.threads t = .deactivating waiter) :
    Moves state (.deactivate t) (state.goto t .dequeuing)
  | fail {t : τ} {waiter : ι} (hpc : state.threads t = .locking waiter)
    (hlocked : state.locked = true) :
    Moves state (.tryLock t) (state.goto t (.reactivating waiter))
  | grant {t : τ} {waiter : ι} (hpc : state.threads t = .locking waiter) :
    Moves state (.tryLock t)
      { state.goto t .outside with
        locked := true, granted := Function.update state.granted waiter true }
  | reactivate {t : τ} {waiter : ι} (hpc : state.threads t = .reactivating waiter) :
    Moves state (.reactivate t) ((state.setActive waiter true).goto t (.requeueing waiter))
  | requeue {t : τ} {waiter : ι} (hpc : state.threads t = .requeueing waiter) :
    Moves state (.requeue t) ({ state with waiters := state.waiters ++ [waiter] }.goto t .outside)
  | markTimeout {i : ι} (hph : state.phase i = .suspended) :
    Moves state (.markTimeout i) ((state.setActive i false).setPhase i .timingOut)
  | resumeTimedOut {i : ι} (hph : state.phase i = .timingOut) :
    Moves state (.resumeTimedOut i) ((state.setActive i false).setPhase i .timedOut)
  | resumeGranted {i : ι} (hph : state.phase i = .suspended) :
    Moves state (.resumeGranted i) ((state.setActive i false).setPhase i .holding)

theorem moves_of_step {next : State τ ι}
    (h : state.step event = some next) : Moves state event next := by
  cases event with
  | lock i =>
    simp only [State.step] at h
    split at h
    case isFalse => cases h
    next hph =>
    cases h
    split
    · next hlocked => exact .refuse hph hlocked
    next hlocked => exact .acquire hph ((Bool.not_eq_true _).mp hlocked)
  | suspend t i =>
    simp only [State.step] at h
    split at h
    case isFalse => cases h
    next hguard =>
    cases h
    exact .suspend hguard.1 hguard.2
  | unlock t i =>
    simp only [State.step] at h
    split at h
    case isFalse => cases h
    next hguard =>
    cases h
    exact .unlock hguard.1 hguard.2
  | load t =>
    simp only [State.step] at h
    split at h
    case h_2 => cases h
    next hpc =>
    cases h
    split
    · next hlocked => exact .busy hpc hlocked
    next hlocked => exact .free hpc ((Bool.not_eq_true _).mp hlocked)
  | dequeue t waiter =>
    simp only [State.step] at h
    split at h
    · next hpc =>
      split at h
      · next hempty =>
        cases h
        exact .empty hpc hempty
      cases h
    · next hpc =>
      split at h
      · next hmem =>
        cases h
        exact .take hpc hmem
      cases h
    cases h
  | deactivate t =>
    simp only [State.step] at h
    split at h
    case h_2 => cases h
    next hpc =>
    cases h
    split
    · exact .deactivate hpc
    exact .skip hpc
  | tryLock t =>
    simp only [State.step] at h
    split at h
    case h_2 => cases h
    next hpc =>
    cases h
    split
    · next hlocked => exact .fail hpc hlocked
    exact .grant hpc
  | reactivate t =>
    simp only [State.step] at h
    split at h
    case h_2 => cases h
    next hpc =>
    cases h
    exact .reactivate hpc
  | requeue t =>
    simp only [State.step] at h
    split at h
    case h_2 => cases h
    next hpc =>
    cases h
    exact .requeue hpc
  | markTimeout i =>
    simp only [State.step] at h
    split at h
    case isFalse => cases h
    next hph =>
    cases h
    exact .markTimeout hph
  | resumeTimedOut i =>
    simp only [State.step] at h
    split at h
    case isFalse => cases h
    next hph =>
    cases h
    exact .resumeTimedOut hph
  | resumeGranted i =>
  simp only [State.step] at h
  split at h
  case isFalse => cases h
  next hguard =>
  cases h
  exact .resumeGranted hguard.1

/-! ## Every waiter is in one place -/

/-- The waiter that a thread has taken out of the queue. -/
def ThreadPc.held : ThreadPc ι → Option ι
  | .deactivating waiter | .locking waiter | .reactivating waiter | .requeueing waiter => some waiter
  | _ => none

/-- A waiter is in the queue or with one thread, and only after its attempt has suspended. -/
structure Placed (state : State τ ι) : Prop where
  nodup : state.waiters.Nodup
  not_mem : ∀ t i, (state.threads t).held = some i → i ∉ state.waiters
  unique : ∀ t u i, (state.threads t).held = some i → (state.threads u).held = some i → t = u
  fresh : ∀ i, state.phase i = .idle ∨ state.phase i = .refused →
    i ∉ state.waiters ∧ ∀ t, (state.threads t).held ≠ some i

section Placed

variable {state next : State τ ι}

/-- A thread lets go of its waiter or keeps it, and no attempt becomes fresh. -/
theorem Placed.keep (h : Placed state) (hwaiters : next.waiters = state.waiters)
    (hheld : ∀ t i, (next.threads t).held = some i → (state.threads t).held = some i)
    (hfresh : ∀ i, next.phase i = .idle ∨ next.phase i = .refused →
      state.phase i = .idle ∨ state.phase i = .refused) : Placed next where
  nodup := hwaiters ▸ h.nodup
  not_mem t i hi := hwaiters ▸ h.not_mem t i (hheld t i hi)
  unique t u i ht hu := h.unique t u i (hheld t i ht) (hheld u i hu)
  fresh i hi := by
    obtain ⟨hmem, hnot⟩ := h.fresh i (hfresh i hi)
    exact ⟨hwaiters ▸ hmem, fun t ht => hnot t (hheld t i ht)⟩

variable {threads : τ → ThreadPc ι}

theorem held_update (h : (update threads t pc u).held = some i) :
    u = t ∧ pc.held = some i ∨ u ≠ t ∧ (threads u).held = some i := by
  by_cases hu : u = t
  · subst hu
    rw [update_self] at h
    exact .inl ⟨rfl, h⟩
  rw [update_of_ne hu] at h
  exact .inr ⟨hu, h⟩

/-- The thread goes on with the waiter that it has, or without one. -/
theorem held_update_keep (hpc : ∀ i, pc.held = some i → (threads t).held = some i) (u : τ) (i : ι)
    (h : (update threads t pc u).held = some i) : (threads u).held = some i := by
  rcases held_update h with ⟨rfl, hi⟩ | ⟨-, hi⟩
  · exact hpc i hi
  exact hi

theorem fresh_update {phases : ι → Phase}
    (hph : phase = .idle ∨ phase = .refused → phases i = .idle ∨ phases i = .refused) (j : ι)
    (h : update phases i phase j = .idle ∨ update phases i phase j = .refused) :
    phases j = .idle ∨ phases j = .refused := by
  by_cases hj : j = i
  · subst hj
    rw [update_self] at h
    exact hph h
  rw [update_of_ne hj] at h
  exact h

omit [DecidableEq τ] in
theorem nodup_append_singleton (h : waiters.Nodup) {i : ι}
    (hi : i ∉ waiters) : (waiters ++ [i]).Nodup := by
  rw [nodup_append]
  refine ⟨h, nodup_singleton i, ?_⟩
  intro a ha b hb heq
  rw [mem_singleton] at hb
  exact hi (hb ▸ heq ▸ ha)

theorem Placed.put (h : Placed state) (hwaiters : next.waiters = state.waiters ++ [i])
    (hmem : i ∉ state.waiters) (hfree : ∀ t, (next.threads t).held ≠ some i)
    (hheld : ∀ t j, (next.threads t).held = some j → (state.threads t).held = some j)
    (hfresh : ∀ j, next.phase j = .idle ∨ next.phase j = .refused →
      j ≠ i ∧ (state.phase j = .idle ∨ state.phase j = .refused)) : Placed next where
  nodup := by
    rw [hwaiters]
    exact nodup_append_singleton h.nodup hmem
  not_mem t j hj := by
    rw [hwaiters, mem_append, mem_singleton]
    rintro (hold | rfl)
    · exact h.not_mem t j (hheld t j hj) hold
    exact hfree t hj
  unique t u j ht hu := h.unique t u j (hheld t j ht) (hheld u j hu)
  fresh j hj := by
    obtain ⟨hne, hbefore⟩ := hfresh j hj
    obtain ⟨hnot, hnobody⟩ := h.fresh j hbefore
    refine ⟨?_, fun t ht => hnobody t (hheld t j ht)⟩
    rw [hwaiters, mem_append, mem_singleton]
    rintro (hold | heq)
    · exact hnot hold
    exact hne heq

theorem Placed.take (h : Placed state) (hmem : waiter ∈ state.waiters) :
    Placed ({ state with waiters := state.waiters.erase waiter }.goto t
      (.deactivating waiter)) := by
  have hothers : ∀ u, (state.threads u).held ≠ some waiter := fun u hu => h.not_mem u waiter hu hmem
  refine ⟨h.nodup.erase waiter, ?_, ?_, ?_⟩
  · intro u i hi
    simp only [State.goto, h.nodup.mem_erase_iff]
    rcases held_update hi with ⟨-, hi⟩ | ⟨-, hi⟩
    · obtain rfl : waiter = i := Option.some.inj hi
      exact fun hnot => hnot.1 rfl
    exact fun hold => h.not_mem u i hi hold.2
  · intro u v i hu hv
    rcases held_update hu with ⟨hut, hwaiter⟩ | ⟨-, hold⟩
    · obtain rfl : waiter = i := Option.some.inj hwaiter
      rcases held_update hv with ⟨hvt, -⟩ | ⟨-, hold⟩
      · exact hut.trans hvt.symm
      exact absurd hold (hothers v)
    rcases held_update hv with ⟨-, hwaiter⟩ | ⟨-, hold'⟩
    · obtain rfl : waiter = i := Option.some.inj hwaiter
      exact absurd hold (hothers u)
    exact h.unique u v i hold hold'
  intro i hi
  obtain ⟨hnot, hnobody⟩ := h.fresh i hi
  refine ⟨fun hold => hnot (mem_of_mem_erase hold), fun u hu => ?_⟩
  rcases held_update hu with ⟨-, hu⟩ | ⟨-, hu⟩
  · obtain rfl : waiter = i := Option.some.inj hu
    exact hnot hmem
  exact hnobody u hu

theorem Placed.step {event : Event τ ι} (h : Placed state) (hmove : Moves state event next) :
    Placed next := by
  cases hmove with
  | refuse hph hlocked | acquire hph hlocked =>
    exact h.keep rfl (fun _ _ => id) (fresh_update fun _ => .inl hph)
  | @suspend t i hpc hph =>
    obtain ⟨hmem, hnobody⟩ := h.fresh i (.inr hph)
    have hheld : ∀ u j, (update state.threads t .loading u).held = some j →
        (state.threads u).held = some j := held_update_keep nofun
    refine h.put rfl hmem (fun u hu => hnobody u (hheld u i hu)) hheld fun j hj => ⟨?_, ?_⟩
    · rintro rfl
      simp only [State.goto, State.setPhase, update_self] at hj
      rcases hj with hj | hj <;> cases hj
    exact fresh_update (by rintro (hnot | hnot) <;> cases hnot) j hj
  | unlock hpc hph =>
    exact h.keep rfl (held_update_keep nofun) (fresh_update (by rintro (hnot | hnot) <;> cases hnot))
  | busy hpc | free hpc | empty hpc | skip hpc | grant hpc =>
    exact h.keep rfl (held_update_keep nofun) fun _ => id
  | take hpc hmem => exact h.take hmem
  | deactivate hpc | fail hpc | reactivate hpc =>
    exact h.keep rfl (held_update_keep fun _ hi => (congrArg ThreadPc.held hpc).trans hi) fun _ => id
  | @requeue t waiter hpc =>
    have hwith : (state.threads t).held = some waiter := congrArg ThreadPc.held hpc
    refine h.put rfl (h.not_mem t waiter hwith) ?_ (held_update_keep nofun) fun j hj => ⟨?_, hj⟩
    · intro u hu
      rcases held_update hu with ⟨-, hu⟩ | ⟨hne, hu⟩
      · cases hu
      exact hne (h.unique u t waiter hu hwith)
    rintro rfl
    exact (h.fresh j hj).2 t hwith
  | markTimeout hph | resumeTimedOut hph | resumeGranted hph =>
  exact h.keep rfl (fun _ _ => id) (fresh_update (by rintro (hnot | hnot) <;> cases hnot))

end Placed

/-! ## The free lock is looked after -/

/-- The thread will still try the lock, or has seen an empty queue. -/
def ThreadPc.Scans : ThreadPc ι → Prop
  | .loading | .dequeuing | .deactivating _ | .locking _ => True
  | _ => False

/-- While the lock is free and an active waiter is in the queue, a thread scans the queue. -/
def Served (state : State τ ι) : Prop :=
  state.locked = false → (∃ i ∈ state.waiters, state.active i = true) →
    ∃ t, (state.threads t).Scans

/-- Whether a step is harmless: a waiter is put back only while the lock is taken, the waiter is not
active or another thread scans the queue, and no waiter is reactivated after its timeout. -/
def Clean (state : State τ ι) : Event τ ι → Prop
  | .reactivate t => ∀ i, state.threads t = .reactivating i → state.phase i ≠ .timedOut
  | .requeue t => ∀ i, state.threads t = .requeueing i →
    state.locked = true ∨ state.active i = false ∨ ∃ u, (state.threads u).Scans
  | _ => True

section Served

variable {state next : State τ ι} {event : Event τ ι}

theorem scans_goto (h : pc.Scans) : ∃ u, ((state.goto t pc).threads u).Scans := by
  refine ⟨t, ?_⟩
  simp only [State.goto, update_self]
  exact h

theorem scans_of_scans (h : (state.threads u).Scans)
    (ht : ¬ (state.threads t).Scans) : ((state.goto t pc).threads u).Scans := by
  have hne : u ≠ t := by
    rintro rfl
    exact ht h
  simp only [State.goto, update_of_ne hne]
  exact h

/-- A waiter that is active after a change was so before, unless it is the one changed. -/
theorem active_of_update {active : ι → Bool}
    (h : update active i value j = true) : j = i ∧ value = true ∨ active j = true := by
  by_cases hj : j = i
  · subst hj
    rw [update_self] at h
    exact .inl ⟨rfl, h⟩
  rw [update_of_ne hj] at h
  exact .inr h

theorem Served.step (h : Served state) (hplaced : Placed state) (hmove : Moves state event next)
    (hclean : Clean state event) : Served next := by
  intro hfree hwaiting
  cases hmove with
  | refuse hph hlocked => exact h hfree hwaiting
  | acquire hph hlocked => cases hfree
  | suspend hpc hph => exact scans_goto trivial
  | unlock hpc hph => exact scans_goto trivial
  | busy hpc hlocked =>
    rw [show state.locked = false from hfree] at hlocked
    cases hlocked
  | free hpc hlocked => exact scans_goto trivial
  | empty hpc hempty =>
    obtain ⟨i, hmem, -⟩ := hwaiting
    have hold : i ∈ state.waiters := hmem
    rw [hempty] at hold
    cases hold
  | take hpc hmem => exact scans_goto trivial
  | deactivate hpc => exact scans_goto trivial
  | skip hpc => exact scans_goto trivial
  | fail hpc hlocked =>
    rw [show state.locked = false from hfree] at hlocked
    cases hlocked
  | grant hpc => cases hfree
  | @reactivate t waiter hpc =>
    obtain ⟨i, hmem, hact⟩ := hwaiting
    have hheld : (state.threads t).held = some waiter := congrArg ThreadPc.held hpc
    have hnot : ¬ (state.threads t).Scans := by
      rw [hpc]
      exact id
    rcases active_of_update hact with ⟨rfl, -⟩ | hact
    · exact absurd hmem (hplaced.not_mem t i hheld)
    obtain ⟨u, hu⟩ := h hfree ⟨i, hmem, hact⟩
    exact ⟨u, scans_of_scans hu hnot⟩
  | @requeue t waiter hpc =>
    obtain ⟨i, hmem, hact⟩ := hwaiting
    have hnot : ¬ (state.threads t).Scans := by
      rw [hpc]
      exact id
    suffices hscans : ∃ u, (state.threads u).Scans by
      obtain ⟨u, hu⟩ := hscans
      exact ⟨u, scans_of_scans hu hnot⟩
    rcases hclean waiter hpc with hlocked | hinactive | hscans
    · rw [show state.locked = false from hfree] at hlocked
      cases hlocked
    · refine h hfree ⟨i, ?_, hact⟩
      rcases List.mem_append.1 hmem with hold | hnew
      · exact hold
      rw [List.mem_singleton.1 hnew] at hact
      rw [show state.active waiter = true from hact] at hinactive
      cases hinactive
    exact hscans
  | markTimeout hph | resumeTimedOut hph | resumeGranted hph =>
  obtain ⟨i, hmem, hact⟩ := hwaiting
  rcases active_of_update hact with ⟨-, hnot⟩ | hact
  · cases hnot
  exact h hfree ⟨i, hmem, hact⟩

/-- An attempt that has timed out has no active waiter. -/
def Expired (state : State τ ι) : Prop :=
  ∀ i, state.phase i = .timedOut → state.active i = false

theorem phase_of_update {phases : ι → Phase}
    (h : update phases i phase j = .timedOut) (hph : phase ≠ .timedOut) :
    j ≠ i ∧ phases j = .timedOut := by
  by_cases hj : j = i
  · subst hj
    rw [update_self] at h
    exact absurd h hph
  rw [update_of_ne hj] at h
  exact ⟨hj, h⟩

theorem update_false {active : ι → Bool} (h : active j = false) :
    update active i false j = false := by
  by_cases hj : j = i
  · subst hj
    rw [update_self]
  rw [update_of_ne hj]
  exact h

theorem Expired.step (h : Expired state) (hmove : Moves state event next)
    (hclean : Clean state event) : Expired next := by
  intro j hj
  cases hmove with
  | refuse hph hlocked | acquire hph hlocked => exact h j (phase_of_update hj nofun).2
  | suspend hpc hph =>
    obtain ⟨hne, hbefore⟩ := phase_of_update hj nofun
    exact (update_of_ne hne ..).trans (h j hbefore)
  | unlock hpc hph => exact h j (phase_of_update hj nofun).2
  | busy | free | empty | take | skip | fail | grant | requeue => exact h j hj
  | deactivate hpc => exact update_false (h j hj)
  | @reactivate t waiter hpc =>
    have hne : j ≠ waiter := by
      rintro rfl
      exact hclean j hpc hj
    exact (update_of_ne hne ..).trans (h j hj)
  | markTimeout hph | resumeGranted hph =>
    exact update_false (h j (phase_of_update hj nofun).2)
  | @resumeTimedOut i hph =>
  by_cases hne : j = i
  · subst hne
    exact update_self ..
  exact update_false (h j ((update_of_ne hne ..).symm.trans hj))

end Served

/-! ## Every run -/

/-- With no thread inside of the mutex and the lock free no active waiter is in the queue, and no
attempt that has timed out has an active waiter. -/
structure Safe (state : State τ ι) : Prop where
  served : (∀ t, state.threads t = .outside) → state.locked = false →
    ∀ i ∈ state.waiters, state.active i = false
  expired : ∀ i, state.phase i = .timedOut → state.active i = false

omit [DecidableEq τ] [DecidableEq ι] in
theorem Served.safe {state : State τ ι} (h : Served state) (hexpired : Expired state) :
    Safe state where
  served houtside hfree i hmem := by
    cases hact : state.active i with
    | false => rfl
    | true =>
    obtain ⟨t, ht⟩ := h hfree ⟨i, hmem, hact⟩
    rw [houtside t] at ht
    exact ht.elim
  expired := hexpired

/-- Every state of the run that the steps make, as far as they can be made, is safe. -/
def SafeRun (state : State τ ι) : List (Event τ ι) → Prop
  | [] => Safe state
  | event :: events => Safe state ∧ ∀ next, state.step event = some next → SafeRun next events

/-- Every step of the run is clean. -/
def CleanRun (state : State τ ι) : List (Event τ ι) → Prop
  | [] => True
  | event :: events =>
    ∀ next, state.step event = some next → Clean state event ∧ CleanRun next events

theorem safeRun_of_invariants {state : State τ ι} (hplaced : Placed state) (hserved : Served state)
    (hexpired : Expired state) (h : CleanRun state events) : SafeRun state events := by
  induction events generalizing state with
  | nil => exact hserved.safe hexpired
  | cons event events ih =>
  refine ⟨hserved.safe hexpired, fun next hstep => ?_⟩
  obtain ⟨hclean, hrest⟩ := h next hstep
  have hmove := moves_of_step hstep
  exact ih (hplaced.step hmove) (hserved.step hplaced hmove hclean) (hexpired.step hmove hclean)
    hrest

/-- No waiter is stranded and none comes back after its timeout, in all states of a run from the
start all of whose steps are clean. -/
theorem safeRun_of_cleanRun {events : List (Event τ ι)} (h : CleanRun ({} : State τ ι) events) :
    SafeRun ({} : State τ ι) events := by
  refine safeRun_of_invariants ⟨nodup_nil, ?_, ?_, ?_⟩ ?_ ?_ h
  · intro t i hheld
    cases hheld
  · intro t u i hheld
    cases hheld
  · exact fun i _ => ⟨nofun, nofun⟩
  · rintro - ⟨i, hmem, -⟩
    cases hmem
  intro i _
  rfl

/-- Thread `false` unlocks for attempt 0, takes the waiter of attempt 1 out of the queue and loses
the lock to attempt 2. -/
def outrun : List (Event Bool Nat) :=
  [.lock 0, .lock 1, .suspend true 1, .load true, .unlock false 0, .load false,
    .dequeue false (some 1), .deactivate false, .lock 2, .tryLock false]

/-- The waiter is put back before attempt 2 unlocks. -/
theorem safeRun_outrun : SafeRun ({} : State Bool Nat)
    (outrun ++ [.reactivate false, .requeue false, .unlock true 2]) := by
  apply safeRun_of_cleanRun
  iterate 10
    rintro _ ⟨⟩
    refine ⟨trivial, ?_⟩
  rintro _ ⟨⟩
  refine ⟨?_, ?_⟩
  · rintro i ⟨⟩ ⟨⟩
  rintro _ ⟨⟩
  refine ⟨fun _ _ => .inl rfl, ?_⟩
  rintro _ ⟨⟩
  exact ⟨trivial, trivial⟩

/-- Attempt 2 unlocks and finds the queue empty before the waiter is put back. -/
theorem not_safeRun_outrun : ¬ SafeRun ({} : State Bool Nat)
    (outrun ++ [.reactivate false, .unlock true 2, .load true, .dequeue true none,
      .requeue false]) := by
  intro hrun
  have houtrun := (((((((((hrun.2 _ rfl).2 _ rfl).2 _ rfl).2 _ rfl).2 _ rfl).2 _ rfl).2 _ rfl).2 _
    rfl).2 _ rfl).2 _ rfl
  have hend : Safe _ := ((((houtrun.2 _ rfl).2 _ rfl).2 _ rfl).2 _ rfl).2 _ rfl
  cases hend.served (by intro t; cases t <;> rfl) rfl 1 mem_cons_self

end Galay.Kernel.AsyncMutex.Steps
