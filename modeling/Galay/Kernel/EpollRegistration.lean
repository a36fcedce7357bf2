import Galay.Kernel.EpollReactor

/-!
# What is pending, registered and reported

A controller has a pending change if and only if what is registered for it is not what has been requested,
and the change is for what has been requested (`Tracked.changes`). What is registered is what the kernel
reports, if a descriptor that the kernel has lost can always be added again (`Tracked.interest`).
-/

namespace Galay.Kernel.EpollReactor

open Function (update update_eq_self update_of_ne update_self forall_update_iff)

variable {ι : Type*} [DecidableEq ι] {reactor reactor' : EpollReactor ι} {i j : ι} {fd entry : Nat}
  {events : EpollEvents} {change : PendingChange} {pending pending' rest : List PendingChange}
  {owner owner' : Nat → Option ι}

/-! ## The changes of one controller -/

/-- The pending events of a controller. -/
def changesOf (owner : Nat → Option ι) (pending : List PendingChange) (i : ι) : List EpollEvents :=
  (pending.filter fun change => owner change.entry = some i).map PendingChange.events

theorem changesOf_cons_self (h : owner change.entry = some i) :
    changesOf owner (change :: rest) i = change.events :: changesOf owner rest i := by
  rw [changesOf, List.filter_cons_of_pos (by exact decide_eq_true h)]
  rfl

theorem changesOf_cons_of_ne (h : owner change.entry ≠ some i) :
    changesOf owner (change :: rest) i = changesOf owner rest i := by
  rw [changesOf, List.filter_cons_of_neg (by exact fun htrue => h (of_decide_eq_true htrue))]
  rfl

theorem changesOf_append :
    changesOf owner (pending ++ pending') i = changesOf owner pending i ++ changesOf owner pending' i := by
  rw [changesOf, List.filter_append, List.map_append]
  rfl

theorem changesOf_eq_nil (h : ∀ change ∈ pending, owner change.entry ≠ some i) :
    changesOf owner pending i = [] := by
  induction pending with
  | nil => rfl
  | cons change rest ih =>
  rw [changesOf_cons_of_ne (h change List.mem_cons_self)]
  exact ih fun c hc => h c (List.mem_cons_of_mem _ hc)

theorem ne_of_changesOf_eq_nil (h : changesOf owner pending i = []) :
    ∀ change ∈ pending, owner change.entry ≠ some i := by
  intro change hmem howner
  have hfilter := List.map_eq_nil_iff.mp h
  exact List.filter_eq_nil_iff.mp hfilter change hmem (decide_eq_true howner)

theorem changesOf_congr
    (h : ∀ change ∈ pending, owner' change.entry = some i ↔ owner change.entry = some i) :
    changesOf owner' pending i = changesOf owner pending i := by
  rw [changesOf, changesOf]
  congr 1
  refine List.filter_congr fun change hmem => ?_
  rw [decide_eq_decide]
  exact h change hmem

/-! ## Invariants -/

/-- What is registered where these events are requested. -/
def registration (events : EpollEvents) : EpollEvents := if events = EPOLLET then 0 else events

/-- What the kernel reports where these events are registered. -/
def reported (registered : EpollEvents) : Option EpollEvents :=
  if registered = 0 then none else some registered

/-- What is pending for a controller. -/
def owed (registered requested : EpollEvents) : List EpollEvents :=
  if registered = registration requested then [] else [requested]

theorem registration_of_ne (h : events ≠ EPOLLET) : registration events = events := if_neg h

variable {registered requested : EpollEvents}

theorem owed_of_eq (h : registered = registration requested) :
    owed registered requested = [] := if_pos h

theorem owed_of_ne (h : registered ≠ registration requested) :
    owed registered requested = [requested] := if_neg h

theorem eq_of_owed_eq_nil (h : owed registered requested = []) :
    registered = registration requested := by
  by_contra hne
  rw [owed_of_ne hne] at h
  cases h

/-- A descriptor belongs to one controller, and an entry to the controller of its descriptor. -/
structure Entries (reactor : EpollReactor ι) : Prop where
  distinct : ∀ i j fd, (reactor.controllers i).handle = some fd →
    (reactor.controllers j).handle = some fd → i = j
  slot : ∀ i entry, (reactor.controllers i).registrationOwnerSlot = some entry →
    ∃ fd, (reactor.controllers i).handle = some fd ∧ reactor.registrationEntries fd = some entry
  entry : ∀ fd entry, reactor.registrationEntries fd = some entry →
    ∃ i, (reactor.controllers i).handle = some fd ∧
      (reactor.controllers i).registrationOwnerSlot = some entry
  owner : ∀ i entry, reactor.owner entry = some i ↔
    (reactor.controllers i).registrationOwnerSlot = some entry
  made : ∀ fd entry, reactor.registrationEntries fd = some entry → entry < reactor.entriesMade

structure Tracked (reactor : EpollReactor ι) (pending : List PendingChange) (i : ι) : Prop where
  requested : reactor.requested i ≠ 0
  registered : (reactor.controllers i).registeredEvents ≠ EPOLLET
  closed : (reactor.controllers i).handle = none →
    (reactor.controllers i).registeredEvents = 0 ∧ reactor.requested i = EPOLLET
  interest : ∀ fd, (reactor.controllers i).handle = some fd →
    reactor.interest fd = reported (reactor.controllers i).registeredEvents
  changes : changesOf reactor.owner pending i =
    owed (reactor.controllers i).registeredEvents (reactor.requested i)

/-- With the changes that are pending, which a flush deals with one by one. -/
structure Inv (reactor : EpollReactor ι) (pending : List PendingChange) : Prop where
  entries : Entries reactor
  tracked : ∀ i, Tracked reactor pending i
  unheld : ∀ fd, (∀ i, (reactor.controllers i).handle ≠ some fd) → reactor.interest fd = none
  made : ∀ change ∈ pending, change.entry < reactor.entriesMade

/-- A controller for which a step has done nothing. -/
theorem Tracked.congr (h : Tracked reactor pending i)
    (hhandle : (reactor'.controllers i).handle = (reactor.controllers i).handle)
    (hreg : (reactor'.controllers i).registeredEvents = (reactor.controllers i).registeredEvents)
    (hreq : reactor'.requested i = reactor.requested i)
    (hinterest : ∀ fd, (reactor.controllers i).handle = some fd →
      reactor'.interest fd = reactor.interest fd)
    (hchanges : changesOf reactor'.owner pending' i = changesOf reactor.owner pending i) :
    Tracked reactor' pending' i where
  requested := by
    rw [hreq]
    exact h.requested
  registered := by
    rw [hreg]
    exact h.registered
  closed hnone := by
    rw [hhandle] at hnone
    rw [hreg, hreq]
    exact h.closed hnone
  interest fd hfd := by
    rw [hhandle] at hfd
    rw [hreg, hinterest fd hfd]
    exact h.interest fd hfd
  changes := by
    rw [hchanges, hreg, hreq]
    exact h.changes

omit [DecidableEq ι] in
theorem Entries.congr (h : Entries reactor)
    (hhandle : ∀ i, (reactor'.controllers i).handle = (reactor.controllers i).handle)
    (hslot : ∀ i, (reactor'.controllers i).registrationOwnerSlot =
      (reactor.controllers i).registrationOwnerSlot)
    (hents : reactor'.registrationEntries = reactor.registrationEntries)
    (howner : reactor'.owner = reactor.owner) (hmade : reactor'.entriesMade = reactor.entriesMade) :
    Entries reactor' where
  distinct i j fd hi hj := h.distinct i j fd ((hhandle i).symm.trans hi) ((hhandle j).symm.trans hj)
  slot i entry hi := by
    rw [hhandle, hents]
    exact h.slot i entry ((hslot i).symm.trans hi)
  entry fd entry hentry := by
    rw [hents] at hentry
    obtain ⟨i, hi, hs⟩ := h.entry fd entry hentry
    exact ⟨i, (hhandle i).trans hi, (hslot i).trans hs⟩
  owner i entry := by
    rw [howner, hslot]
    exact h.owner i entry
  made fd entry hentry := by
    rw [hents] at hentry
    rw [hmade]
    exact h.made fd entry hentry

omit [DecidableEq ι] in
theorem Entries.entry_of_owner (h : Entries reactor) (howner : reactor.owner entry = some i) :
    ∃ fd, (reactor.controllers i).handle = some fd ∧ reactor.registrationEntries fd = some entry :=
  h.slot i entry ((h.owner i entry).mp howner)

theorem Inv.initial : Inv ({} : EpollReactor ι) [] where
  entries := ⟨nofun, nofun, nofun, fun _ _ => ⟨nofun, nofun⟩, nofun⟩
  tracked _ := ⟨nofun, nofun, fun _ => ⟨rfl, rfl⟩, nofun, rfl⟩
  unheld _ _ := rfl
  made := nofun

/-! ## Controllers -/

@[simp] theorem controllers_setController_self (controller : IOController) :
    (reactor.setController i controller).controllers i = controller :=
  update_self ..

theorem controllers_setController_of_ne (hne : j ≠ i) (controller : IOController) :
    (reactor.setController i controller).controllers j = reactor.controllers j :=
  update_of_ne hne ..

/-- A controller changes in what the entries and the registrations do not depend on. -/
theorem Inv.setController (h : Inv reactor pending)
    (hhandle : controller.handle = (reactor.controllers i).handle)
    (hslot : controller.registrationOwnerSlot = (reactor.controllers i).registrationOwnerSlot)
    (hreg : controller.registeredEvents = (reactor.controllers i).registeredEvents) :
    Inv (reactor.setController i controller) pending := by
  have hctl : ∀ j, ((reactor.setController i controller).controllers j).handle =
        (reactor.controllers j).handle ∧
      ((reactor.setController i controller).controllers j).registrationOwnerSlot =
        (reactor.controllers j).registrationOwnerSlot ∧
      ((reactor.setController i controller).controllers j).registeredEvents =
        (reactor.controllers j).registeredEvents := by
    intro j
    rcases eq_or_ne j i with rfl | hne
    · rw [controllers_setController_self]
      exact ⟨hhandle, hslot, hreg⟩
    rw [controllers_setController_of_ne hne]
    exact ⟨rfl, rfl, rfl⟩
  exact
    { entries := h.entries.congr (fun j => (hctl j).1) (fun j => (hctl j).2.1) rfl rfl rfl
      tracked := fun j => (h.tracked j).congr (hctl j).1 (hctl j).2.2 rfl
        (fun _ _ => rfl) rfl
      unheld := fun fd hfd => h.unheld fd fun j hj => hfd j ((hctl j).1.trans hj)
      made := h.made }

/-! ## Registration entries -/

theorem releaseRegistrationOwnerSlot_none
    (hslot : (reactor.controllers i).registrationOwnerSlot = none) :
    reactor.releaseRegistrationOwnerSlot i = reactor := by
  rw [releaseRegistrationOwnerSlot, hslot]

theorem bindRegistrationOwnerSlot_fresh
    (hslot : (reactor.controllers i).registrationOwnerSlot = none)
    (hfresh : reactor.owner entry = none) :
    reactor.bindRegistrationOwnerSlot i entry =
      { reactor with owner := update reactor.owner entry (some i) }.setController i
        { reactor.controllers i with registrationOwnerSlot := some entry } := by
  rw [bindRegistrationOwnerSlot, if_neg (by rw [hslot]; exact nofun),
    releaseRegistrationOwnerSlot_none hslot]
  dsimp only
  rw [hfresh]

omit [DecidableEq ι] in
theorem Entries.slot_eq_none (h : Entries reactor) (hfd : (reactor.controllers i).handle = some fd)
    (hentry : reactor.registrationEntries fd = none) :
    (reactor.controllers i).registrationOwnerSlot = none := by
  rcases hslot : (reactor.controllers i).registrationOwnerSlot with _ | entry
  · rfl
  obtain ⟨fd', hfd', hentry'⟩ := h.slot i entry hslot
  cases hfd.symm.trans hfd'
  exact nomatch hentry.symm.trans hentry'

theorem same_of_slot (hctls : reactor'.controllers =
      update reactor.controllers i { reactor.controllers i with registrationOwnerSlot := slot }) :
    ∀ j, (reactor'.controllers j).handle = (reactor.controllers j).handle ∧
      (reactor'.controllers j).registeredEvents = (reactor.controllers j).registeredEvents := by
  rw [hctls]
  exact (forall_update_iff _ fun j (controller : IOController) =>
    controller.handle = (reactor.controllers j).handle ∧
      controller.registeredEvents = (reactor.controllers j).registeredEvents).2
    ⟨⟨rfl, rfl⟩, fun _ _ => ⟨rfl, rfl⟩⟩

/-- A controller and its descriptor get another entry, or lose the one they have. -/
theorem Inv.rebind (h : Inv reactor pending) (hfd : (reactor.controllers i).handle = some fd)
    (hctls : reactor'.controllers = update reactor.controllers i
      { reactor.controllers i with registrationOwnerSlot := slot })
    (hents : reactor'.registrationEntries = update reactor.registrationEntries fd slot)
    (howner : ∀ entry, reactor'.owner entry = some i ↔ slot = some entry)
    (hothers : ∀ j ≠ i, ∀ entry, reactor'.owner entry = some j ↔ reactor.owner entry = some j)
    (hmade : reactor.entriesMade ≤ reactor'.entriesMade)
    (hfresh : ∀ entry, slot = some entry → entry < reactor'.entriesMade)
    (hinterest : reactor'.interest = reactor.interest)
    (hreq : reactor'.requested = reactor.requested)
    (hchanges : changesOf reactor'.owner pending i = changesOf reactor.owner pending i) :
    Inv reactor' pending := by
  have hself : (reactor'.controllers i).registrationOwnerSlot = slot := by rw [hctls, update_self]
  have hother : ∀ j ≠ i, (reactor'.controllers j).registrationOwnerSlot =
      (reactor.controllers j).registrationOwnerSlot := by
    intro j hne
    rw [hctls, update_of_ne hne]
  have hsame := same_of_slot hctls
  have hkept {j : ι} {fd' : Nat} (hj : (reactor.controllers j).handle = some fd') (hne : j ≠ i) :
      reactor'.registrationEntries fd' = reactor.registrationEntries fd' := by
    rw [hents, update_of_ne]
    rintro rfl
    exact hne (h.entries.distinct j i fd' hj hfd)
  refine ⟨⟨?_, ?_, ?_, ?_, ?_⟩, fun j => ?_, fun fd' hfd' => ?_, fun change hmem => ?_⟩
  · exact fun j k fd' hj hk => h.entries.distinct j k fd' ((hsame j).1.symm.trans hj)
      ((hsame k).1.symm.trans hk)
  · intro j entry hj
    rw [(hsame j).1]
    rcases eq_or_ne j i with rfl | hne
    · refine ⟨fd, hfd, ?_⟩
      rw [hents, update_self, ← hself, hj]
    obtain ⟨fd', hfd', hentry⟩ := h.entries.slot j entry ((hother j hne).symm.trans hj)
    exact ⟨fd', hfd', (hkept hfd' hne).trans hentry⟩
  · rw [hents]
    refine (forall_update_iff _ fun fd' slot' => ∀ entry, slot' = some entry → ∃ i,
      (reactor'.controllers i).handle = some fd' ∧
        (reactor'.controllers i).registrationOwnerSlot = some entry).2
      ⟨fun entry hentry => ⟨i, (hsame i).1.trans hfd, hself.trans hentry⟩, fun fd' hne entry hentry => ?_⟩
    obtain ⟨j, hj, hs⟩ := h.entries.entry fd' entry hentry
    refine ⟨j, (hsame j).1.trans hj, (hother j ?_).trans hs⟩
    rintro rfl
    exact hne (Option.some.inj (hj.symm.trans hfd))
  · intro j entry
    rcases eq_or_ne j i with rfl | hne
    · rw [hself]
      exact howner entry
    rw [hother j hne, hothers j hne]
    exact h.entries.owner j entry
  · rw [hents]
    exact (forall_update_iff _ fun _ slot' => ∀ entry, slot' = some entry →
      entry < reactor'.entriesMade).2
      ⟨hfresh, fun fd' _ entry hentry => Nat.lt_of_lt_of_le (h.entries.made fd' entry hentry) hmade⟩
  · refine (h.tracked j).congr (hsame j).1 (hsame j).2 (congrFun hreq j)
      (fun fd' _ => congrFun hinterest fd') ?_
    rcases eq_or_ne j i with rfl | hne
    · exact hchanges
    exact changesOf_congr fun change _ => hothers j hne change.entry
  · rw [hinterest]
    exact h.unheld fd' fun j hj => hfd' j ((hsame j).1.trans hj)
  exact Nat.lt_of_lt_of_le (h.made change hmem) hmade

/-- The entry for a controller that has a descriptor: that of the descriptor, or a new one. -/
theorem registrationEntryForController_eq (h : Inv reactor pending)
    (hfd : (reactor.controllers i).handle = some fd) : ∃ entry reactor',
      reactor.registrationEntryForController i = (some entry, reactor') ∧
      Inv reactor' pending ∧ reactor'.owner entry = some i ∧ entry < reactor'.entriesMade ∧
      (∀ j, (reactor'.controllers j).handle = (reactor.controllers j).handle ∧
        (reactor'.controllers j).registeredEvents = (reactor.controllers j).registeredEvents) ∧
      reactor'.requested = reactor.requested ∧
      reactor'.pendingChanges = reactor.pendingChanges := by
  rw [registrationEntryForController, hfd]
  dsimp only
  rcases hentry : reactor.registrationEntries fd with _ | entry
  · -- The controller is bound to no entry yet, and nobody to the new one.
    have hslot := h.entries.slot_eq_none hfd hentry
    have hfresh : reactor.owner reactor.entriesMade = none := by
      rcases howner : reactor.owner reactor.entriesMade with _ | j
      · rfl
      obtain ⟨fd', _, hentry'⟩ := h.entries.entry_of_owner howner
      exact absurd (h.entries.made fd' _ hentry') (Nat.lt_irrefl _)
    dsimp only
    rw [bindRegistrationOwnerSlot_fresh (by exact hslot) (by exact hfresh)]
    have howner : update reactor.owner reactor.entriesMade (some i) reactor.entriesMade =
        some i := update_self ..
    have hnobody (entry : Nat) : reactor.owner entry ≠ some i := fun howner =>
      nomatch hslot.symm.trans ((h.entries.owner i entry).1 howner)
    refine ⟨_, _, rfl, h.rebind hfd rfl rfl (fun entry => ?_) (fun j hne entry => ?_) (Nat.le_succ _)
      (fun entry hsome => ?_) rfl rfl ?_, howner, Nat.lt_succ_self _, same_of_slot rfl, rfl, rfl⟩
    · exact (forall_update_iff reactor.owner fun entry owner =>
        owner = some i ↔ some reactor.entriesMade = some entry).2
        ⟨iff_of_true rfl rfl, fun entry hne => iff_of_false (hnobody entry)
          fun heq => hne (Option.some.inj heq).symm⟩ entry
    · exact (forall_update_iff reactor.owner fun entry owner =>
        owner = some j ↔ reactor.owner entry = some j).2
        ⟨iff_of_false (fun heq => hne (Option.some.inj heq).symm) (by rw [hfresh]; exact nofun),
          fun _ _ => Iff.rfl⟩ entry
    · cases hsome
      exact Nat.lt_succ_self _
    refine changesOf_congr fun change hmem => ?_
    show update reactor.owner reactor.entriesMade (some i) change.entry = some i ↔ _
    rw [update_of_ne (Nat.ne_of_lt (h.made change hmem))]
  obtain ⟨j, hj, hslot⟩ := h.entries.entry fd entry hentry
  cases h.entries.distinct i j fd hfd hj
  have howner := (h.entries.owner i entry).mpr hslot
  have hbind : reactor.bindRegistrationOwnerSlot i entry = reactor := by
    rw [bindRegistrationOwnerSlot, if_pos hslot, ← howner, update_eq_self]
  exact ⟨entry, reactor, by dsimp only; rw [hbind], h, howner, h.entries.made fd entry hentry,
    fun _ => ⟨rfl, rfl⟩, rfl, rfl⟩

theorem retireRegistrationEntry_eq (h : Entries reactor)
    (hfd : (reactor.controllers i).handle = some fd)
    (hentry : reactor.registrationEntries fd = some entry) :
    reactor.retireRegistrationEntry i =
      { reactor.setController i { reactor.controllers i with registrationOwnerSlot := none } with
        owner := update reactor.owner entry none
        registrationEntries := update reactor.registrationEntries fd none } := by
  obtain ⟨j, hj, hslot⟩ := h.entry fd entry hentry
  cases h.distinct i j fd hfd hj
  have howner := (h.owner i entry).mpr hslot
  rw [retireRegistrationEntry, hfd]
  dsimp only
  rw [hentry]
  dsimp only
  rw [if_neg (not_not.mpr howner), releaseRegistrationOwnerSlot, hslot]
  dsimp only
  rw [if_pos (by exact howner)]
  rfl

theorem Inv.retire (h : Inv reactor pending) (hfd : (reactor.controllers i).handle = some fd)
    (hreg : (reactor.controllers i).registeredEvents = 0)
    (hreq : reactor.requested i = EPOLLET) :
    ∃ reactor', reactor.retireRegistrationEntry i = reactor' ∧ Inv reactor' pending ∧
      (∀ j, (reactor'.controllers j).handle = (reactor.controllers j).handle ∧
        (reactor'.controllers j).registeredEvents = (reactor.controllers j).registeredEvents) ∧
      (∀ j ≠ i, ∀ entry, reactor'.owner entry = some j ↔ reactor.owner entry = some j) ∧
      (reactor'.controllers i).registrationOwnerSlot = none ∧
      reactor'.requested = reactor.requested ∧ reactor'.interest = reactor.interest := by
  rcases hentry : reactor.registrationEntries fd with _ | entry
  · refine ⟨reactor, ?_, h, fun _ => ⟨rfl, rfl⟩, fun _ _ _ => Iff.rfl,
      h.entries.slot_eq_none hfd hentry, rfl, rfl⟩
    rw [retireRegistrationEntry, hfd]
    dsimp only
    rw [hentry]
  obtain ⟨i', hi', hslot⟩ := h.entries.entry fd entry hentry
  cases h.entries.distinct i i' fd hfd hi'
  have howner := (h.entries.owner i entry).mpr hslot
  have hnobody : ∀ entry', update reactor.owner entry none entry' ≠ some i :=
    (forall_update_iff reactor.owner fun _ owner => owner ≠ some i).2 ⟨nofun, fun entry' hne hi =>
      hne (Option.some.inj (((h.entries.owner i entry').1 hi).symm.trans hslot))⟩
  have hothers (j : ι) (hne : j ≠ i) : ∀ entry', update reactor.owner entry none entry' = some j ↔
      reactor.owner entry' = some j :=
    (forall_update_iff reactor.owner fun entry' owner =>
      owner = some j ↔ reactor.owner entry' = some j).2 ⟨iff_of_false nofun fun hj =>
        hne (Option.some.inj (hj.symm.trans howner)), fun _ _ => Iff.rfl⟩
  refine ⟨_, retireRegistrationEntry_eq h.entries hfd hentry, h.rebind hfd rfl rfl
    (fun entry' => iff_of_false (hnobody entry') nofun) hothers (Nat.le_refl _) nofun rfl rfl ?_,
    same_of_slot rfl, hothers, congrArg _ (update_self i _ reactor.controllers), rfl, rfl⟩
  have hchanges := (h.tracked i).changes
  rw [hreg, hreq, show owed 0 EPOLLET = [] from rfl] at hchanges
  rw [hchanges]
  exact changesOf_eq_nil fun change _ => hnobody change.entry

end Galay.Kernel.EpollReactor
