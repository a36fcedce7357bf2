import Galay.Kernel.EpollRegistration

/-!
# Requests and flushes

A request leaves at most one change pending for its controller. A flush deals with the changes in turn
and stops at the first whose call fails, so that all are dealt with but the last only if none before it fails
(`Orderly`).
-/

namespace Galay.Kernel.EpollReactor

open Function (update_eq_self update_of_ne update_self)
open List

variable {ι : Type*} [DecidableEq ι] {reactor reactor' : EpollReactor ι} {i j : ι} {fd : Nat}
  {events : EpollEvents} {change : PendingChange} {before after pending pending' rest : List PendingChange}
  {outcomes : EpollOutcomes}

/-! ## Finding a change -/

theorem findIdx_cases (p : α → Bool) (l : List α) :
    (l.findIdx p = l.length ∧ ∀ a ∈ l, p a = false) ∨
      ∃ before a after, l = before ++ a :: after ∧ l.findIdx p = before.length ∧ p a = true := by
  induction l with
  | nil => exact Or.inl ⟨rfl, nofun⟩
  | cons a l ih =>
  rw [findIdx_cons]
  rcases hp : p a
  · rcases ih with ⟨hlen, hnone⟩ | ⟨before, b, after, rfl, hindex, hb⟩
    · refine Or.inl ⟨congrArg (· + 1) hlen, fun c hc => ?_⟩
      rcases List.mem_cons.mp hc with rfl | hc
      · exact hp
      exact hnone c hc
    exact Or.inr ⟨a :: before, b, after, rfl, congrArg (· + 1) hindex, hb⟩
  exact Or.inr ⟨[], a, l, rfl, rfl, hp⟩

theorem modify_append (f : α → α) (before : List α) (a : α) (after : List α) :
    (before ++ a :: after).modify before.length f = before ++ f a :: after := by
  induction before with
  | nil => rfl
  | cons b before ih => exact congrArg (b :: ·) ih

theorem Tracked.found (h : Tracked reactor (before ++ change :: after) i)
    (howner : reactor.owner change.entry = some i) :
    changesOf reactor.owner before i = [] ∧ changesOf reactor.owner after i = [] ∧
      change.events = reactor.requested i ∧
      (reactor.controllers i).registeredEvents ≠ registration (reactor.requested i) := by
  have hchanges := h.changes
  rw [changesOf_append, changesOf_cons_self howner] at hchanges
  by_cases hsettled :
      (reactor.controllers i).registeredEvents = registration (reactor.requested i)
  · rw [owed_of_eq hsettled] at hchanges
    exact absurd hchanges (append_ne_nil_of_right_ne_nil _ (cons_ne_nil _ _))
  rw [owed_of_ne hsettled] at hchanges
  rcases hbefore : changesOf reactor.owner before i with _ | ⟨a, l⟩
  · rw [hbefore, nil_append] at hchanges
    obtain ⟨hevents, hafter⟩ := List.cons.inj hchanges
    exact ⟨rfl, hafter, hevents, hsettled⟩
  rw [hbefore] at hchanges
  obtain ⟨_, hnil⟩ := List.cons.inj hchanges
  exact absurd hnil (append_ne_nil_of_right_ne_nil _ (cons_ne_nil _ _))

theorem Tracked.head (h : Tracked reactor (change :: rest) i)
    (howner : reactor.owner change.entry = some i) :
    changesOf reactor.owner rest i = [] ∧ change.events = reactor.requested i ∧
      (reactor.controllers i).registeredEvents ≠ registration (reactor.requested i) :=
  (@found _ _ _ _ _ [] _ h howner).2

theorem findPendingChangeIndex_cases (h : Tracked reactor reactor.pendingChanges i) :
    (reactor.findPendingChangeIndex i = reactor.pendingChanges.length ∧
      changesOf reactor.owner reactor.pendingChanges i = [] ∧
      (reactor.controllers i).registeredEvents = registration (reactor.requested i)) ∨
    ∃ before change after, reactor.pendingChanges = before ++ change :: after ∧
      reactor.findPendingChangeIndex i = before.length ∧ reactor.owner change.entry = some i ∧
      changesOf reactor.owner before i = [] ∧ changesOf reactor.owner after i = [] ∧
      change.events = reactor.requested i := by
  rcases findIdx_cases (fun change => decide (reactor.owner change.entry = some i))
    reactor.pendingChanges with ⟨hindex, hnone⟩ | ⟨before, change, after, hsplit, hindex, howner⟩
  · have hchanges : changesOf reactor.owner reactor.pendingChanges i = [] :=
      changesOf_eq_nil fun change hmem => of_decide_eq_false (hnone change hmem)
    exact Or.inl ⟨hindex, hchanges, eq_of_owed_eq_nil (h.changes.symm.trans hchanges)⟩
  have howner := of_decide_eq_true howner
  rw [hsplit] at h
  obtain ⟨hbefore, hafter, hevents, _⟩ := h.found howner
  exact Or.inr ⟨before, change, after, hsplit, hindex, howner, hbefore, hafter, hevents⟩

theorem changesOf_erase {owner : Nat → Option ι} (howner : owner change.entry = some i)
    (hne : j ≠ i) :
    changesOf owner (before ++ after) j = changesOf owner (before ++ change :: after) j := by
  rw [changesOf_append, changesOf_append, changesOf_cons_of_ne]
  rw [howner]
  exact fun heq => hne (Option.some.inj heq).symm

/-! ## Requests -/

/-- Neither the list of the changes nor the record of the flushes belongs to the invariant. -/
theorem Inv.of_eq (h : Inv reactor pending) (hctls : reactor'.controllers = reactor.controllers)
    (hents : reactor'.registrationEntries = reactor.registrationEntries)
    (howner : reactor'.owner = reactor.owner) (hmade : reactor'.entriesMade = reactor.entriesMade)
    (hinterest : reactor'.interest = reactor.interest)
    (hreq : reactor'.requested = reactor.requested) : Inv reactor' pending := by
  cases reactor
  cases reactor'
  subst hctls hents howner hmade hinterest hreq
  exact ⟨h.entries.congr (fun _ => rfl) (fun _ => rfl) rfl rfl rfl,
    fun i => (h.tracked i).congr rfl rfl rfl (fun _ _ => rfl) rfl, h.unheld, h.made⟩

theorem Inv.request (h : Inv reactor pending) (hfd : (reactor.controllers i).handle = some fd)
    (hevents : events ≠ 0)
    (hothers : ∀ j ≠ i, changesOf reactor.owner pending' j = changesOf reactor.owner pending j)
    (hself : changesOf reactor.owner pending' i =
      owed (reactor.controllers i).registeredEvents events)
    (hmade : ∀ change ∈ pending', change.entry < reactor.entriesMade) :
    Inv (recordRequest { reactor with pendingChanges := pending' } i events) pending' where
  entries := h.entries.congr (fun _ => rfl) (fun _ => rfl) rfl rfl rfl
  tracked j := by
    rcases eq_or_ne j i with rfl | hne
    · have hreq : (recordRequest { reactor with pendingChanges := pending' } j events).requested j =
          events := update_self ..
      refine ⟨?_, (h.tracked j).registered, fun hnone => ?_, (h.tracked j).interest, ?_⟩
      · rw [hreq]
        exact hevents
      · exact nomatch hfd.symm.trans hnone
      rw [hreq]
      exact hself
    exact (h.tracked j).congr rfl rfl (update_of_ne hne ..) (fun _ _ => rfl) (hothers j hne)
  unheld := h.unheld
  made := hmade

variable {registered : EpollEvents}

theorem registered_ne_registration (hremove : ¬ (events = EPOLLET ∧ registered = 0))
    (hne : events ≠ registered) :
    registered ≠ registration events := by
  intro heq
  by_cases hevents : events = EPOLLET
  · rw [hevents, show registration EPOLLET = 0 from rfl] at heq
    exact hremove ⟨hevents, heq⟩
  rw [registration_of_ne hevents] at heq
  exact hne heq.symm

theorem Inv.queueChange (h : Inv reactor reactor.pendingChanges) (hevents : events ≠ 0) :
    ∃ reactor', (reactor.queueChange i events = .queued reactor' ∨
        ∃ code, reactor.queueChange i events = .returned code reactor') ∧
      Inv reactor' reactor'.pendingChanges ∧ reactor'.lastFlush = none := by
  rw [EpollReactor.queueChange]
  rcases hfd : (reactor.controllers i).handle with _ | fd
  · exact ⟨_, Or.inr ⟨-1, rfl⟩, h.of_eq rfl rfl rfl rfl rfl rfl, rfl⟩
  dsimp only
  have htracked := h.tracked i
  rcases findPendingChangeIndex_cases htracked with ⟨hindex, hnone, hsettled⟩ |
    ⟨before, change, after, hsplit, hindex, howner, hbefore, hafter, hchange⟩
  · -- Nothing is pending.
    have hlen : ¬ reactor.findPendingChangeIndex i ≠ reactor.pendingChanges.length :=
      not_not.mpr hindex
    have hunchanged : (reactor.controllers i).registeredEvents = registration events →
        Inv (reactor.recordRequest i events) reactor.pendingChanges := fun heq =>
      h.request hfd hevents (fun _ _ => rfl) (by rw [hnone, owed_of_eq heq]) h.made
    rw [if_neg hlen, if_neg hlen]
    by_cases hremove : events = EPOLLET ∧ (reactor.controllers i).registeredEvents = 0
    · rw [if_pos hremove]
      refine ⟨_, Or.inr ⟨0, rfl⟩, hunchanged ?_, rfl⟩
      rw [hremove.1, hremove.2]
      rfl
    rw [if_neg hremove]
    by_cases heq : events = (reactor.controllers i).registeredEvents
    · rw [if_pos heq]
      refine ⟨_, Or.inr ⟨0, rfl⟩, hunchanged ?_, rfl⟩
      rw [registration_of_ne (heq ▸ htracked.registered), heq]
    rw [if_neg heq]
    obtain ⟨entry, reactor₁, hentry, h₁, howner, hmade, hsame, hreq, hpend⟩ :=
      registrationEntryForController_eq h hfd
    rw [hentry]
    dsimp only
    refine ⟨_, Or.inl rfl, h₁.request ((hsame i).1.trans hfd) hevents (fun j hne => ?_) ?_
      fun c hc => ?_, rfl⟩
    · have hentry : reactor₁.owner entry ≠ some j := by
        rw [howner]
        exact fun heq => hne (Option.some.inj heq).symm
      rw [hpend, changesOf_append, changesOf_cons_of_ne hentry]
      exact append_nil _
    · have hnone₁ : changesOf reactor₁.owner reactor.pendingChanges i = [] := by
        rw [(h₁.tracked i).changes, (hsame i).2, hreq, owed_of_eq hsettled]
      rw [hpend, changesOf_append, changesOf_cons_self howner, hnone₁, (hsame i).2,
        owed_of_ne (registered_ne_registration hremove heq)]
      rfl
    rcases List.mem_append.mp hc with hc | hc
    · rw [hpend] at hc
      exact h₁.made c hc
    rw [List.mem_singleton.mp hc]
    exact hmade
  -- The change that is pending is taken out, or gets the new events.
  have hlen : reactor.findPendingChangeIndex i ≠ reactor.pendingChanges.length := by
    rw [hindex, hsplit, length_append, length_cons]
    omega
  have hmem : ∀ c ∈ before ++ after, c ∈ reactor.pendingChanges := by
    intro c hc
    rw [hsplit]
    rcases List.mem_append.mp hc with hc | hc
    · exact mem_append_left _ hc
    exact mem_append_right _ (mem_cons_of_mem _ hc)
  have hothers : ∀ j ≠ i, changesOf reactor.owner (before ++ after) j =
      changesOf reactor.owner reactor.pendingChanges j := by
    intro j hne
    rw [hsplit]
    exact changesOf_erase howner hne
  have herase : reactor.erasePendingChange (reactor.findPendingChangeIndex i) =
      { reactor with pendingChanges := before ++ after } := by
    rw [erasePendingChange, hindex, hsplit, eraseIdx_append_of_length_le (Nat.le_refl _),
      Nat.sub_self, eraseIdx_cons_zero]
  have herased : (reactor.controllers i).registeredEvents = registration events →
      Inv (recordRequest { reactor with pendingChanges := before ++ after } i events)
        (before ++ after) := by
    intro heq
    refine h.request hfd hevents hothers ?_ fun c hc => h.made c (hmem c hc)
    rw [changesOf_append, hbefore, hafter, owed_of_eq heq]
    rfl
  rw [if_pos hlen, if_pos hlen, herase]
  by_cases hremove : events = EPOLLET ∧ (reactor.controllers i).registeredEvents = 0
  · rw [if_pos hremove]
    refine ⟨_, Or.inr ⟨0, rfl⟩, herased ?_, rfl⟩
    rw [hremove.1, hremove.2]
    rfl
  rw [if_neg hremove]
  by_cases heq : events = (reactor.controllers i).registeredEvents
  · rw [if_pos heq]
    refine ⟨_, Or.inr ⟨0, rfl⟩, herased ?_, rfl⟩
    rw [registration_of_ne (heq ▸ htracked.registered), heq]
  have hne := registered_ne_registration hremove heq
  have hget : reactor.pendingChanges[reactor.findPendingChangeIndex i]? = some change := by
    rw [hindex, hsplit, getElem?_append_right (Nat.le_refl _), Nat.sub_self, getElem?_cons_zero]
  rw [if_neg heq, hget, Option.map_some]
  by_cases hsame : change.events = events
  · rw [if_pos (congrArg some hsame)]
    refine ⟨_, Or.inr ⟨0, rfl⟩, h.request hfd hevents (fun _ _ => rfl) ?_ h.made, rfl⟩
    rw [htracked.changes, ← hsame, hchange]
  have hmodify : reactor.pendingChanges.modify (reactor.findPendingChangeIndex i)
      ({ · with events }) = before ++ { change with events } :: after := by
    rw [hindex, hsplit, modify_append]
  have howner' : reactor.owner ({ change with events } : PendingChange).entry = some i := howner
  rw [if_neg fun hsome => hsame (Option.some.inj hsome), hmodify]
  refine ⟨_, Or.inl rfl, h.request hfd hevents (fun j hji => ?_) ?_ fun c hc => ?_, rfl⟩
  · rw [← hothers j hji]
    exact (changesOf_erase howner' hji).symm
  · rw [changesOf_append, changesOf_cons_self howner', hbefore, hafter, owed_of_ne hne]
    rfl
  rcases List.mem_append.mp hc with hc | hc
  · exact h.made c (hmem c (mem_append_left _ hc))
  rcases List.mem_cons.mp hc with rfl | hc
  · have hold := h.made change (by rw [hsplit]; exact mem_append_cons_self)
    exact hold
  exact h.made c (hmem c (mem_append_right _ hc))

/-! ## One change of a flush -/

/-- The calls for a change fail, other than with the `ENOENT` that a removal is content with. -/
def fails (outcomes : EpollOutcomes) (reactor : EpollReactor ι) (change : PendingChange) : Prop :=
  ∃ i fd registered, reactor.target change = some (i, fd, registered) ∧
    if change.events = EPOLLET then ∃ errno, outcomes .DEL fd = some errno ∧ errno ≠ ENOENT
    else (register outcomes fd registered change.events none).1 ≠ none

/-- The kernel has lost the descriptor of a change, and it cannot be added again. -/
def loses (outcomes : EpollOutcomes) (reactor : EpollReactor ι) (change : PendingChange) : Prop :=
  ∃ i fd registered, reactor.target change = some (i, fd, registered) ∧ change.events ≠ EPOLLET ∧
    registered ≠ 0 ∧ outcomes .MOD fd = some ENOENT ∧ outcomes .ADD fd ≠ none

theorem register_fst (registered : EpollEvents) (interest interest' : Option EpollEvents) :
    (register outcomes fd registered events interest).1 =
      (register outcomes fd registered events interest').1 := by
  rw [register, register]
  split
  · rfl
  dsimp only
  split <;> rfl

variable {interest : Option EpollEvents}

theorem register_snd_of_none (h : (register outcomes fd registered events interest).1 = none) :
    (register outcomes fd registered events interest).2 = some events := by
  rw [register] at h ⊢
  split at h
  · next hzero =>
    rw [if_pos hzero]
    dsimp only at h ⊢
    rw [h]
    rfl
  next hreg =>
  rw [if_neg hreg]
  dsimp only at h ⊢
  split at h
  · next hlost =>
    rw [if_pos hlost]
    dsimp only at h ⊢
    rw [h]
    rfl
  next hkept =>
  rw [if_neg hkept]
  dsimp only at h ⊢
  rw [h]
  rfl

/-- A descriptor for which the calls have failed is reported as before, if it is not lost. -/
theorem register_snd_of_some (h : (register outcomes fd registered events interest).1 = some errno)
    (hinterest : interest = reported registered)
    (hkept : registered ≠ 0 → outcomes .MOD fd = some ENOENT → outcomes .ADD fd = none) :
    (register outcomes fd registered events interest).2 = interest := by
  rw [register] at h ⊢
  split at h
  · next hzero =>
    rw [if_pos hzero]
    dsimp only at h ⊢
    rw [h, afterCtl, hinterest, hzero]
    split <;> rfl
  next hreg =>
  rw [if_neg hreg]
  dsimp only at h ⊢
  split at h
  · next hlost =>
    dsimp only at h
    exact nomatch (hkept hreg hlost).symm.trans h
  next hmod =>
  rw [if_neg hmod]
  dsimp only at h ⊢
  rw [h] at hmod
  rw [h, afterCtl, if_neg fun heq => hmod (congrArg some heq)]

theorem Inv.congr_pending (h : Inv reactor pending)
    (hchanges : ∀ j, changesOf reactor.owner pending' j = changesOf reactor.owner pending j)
    (hmade : ∀ change ∈ pending', change.entry < reactor.entriesMade) : Inv reactor pending' :=
  ⟨h.entries, fun j => (h.tracked j).congr rfl rfl rfl (fun _ _ => rfl) (hchanges j), h.unheld, hmade⟩

theorem Inv.settle (h : Inv reactor (change :: rest)) (howner : reactor.owner change.entry = some i)
    (hfd : (reactor.controllers i).handle = some fd) (registered : EpollEvents)
    (hreg : registered = registration (reactor.requested i)) :
    Inv ((reactor.setInterest fd (reported registered)).setRegistered i registered) rest := by
  obtain ⟨hrest, _⟩ := (h.tracked i).head howner
  have hctl : ∀ j, let reactor' :=
        (reactor.setInterest fd (reported registered)).setRegistered i registered
      (reactor'.controllers j).handle = (reactor.controllers j).handle ∧
      (reactor'.controllers j).registrationOwnerSlot =
        (reactor.controllers j).registrationOwnerSlot ∧
      (reactor'.controllers j).registeredEvents =
        if j = i then registered else (reactor.controllers j).registeredEvents := by
    intro j reactor'
    rcases eq_or_ne j i with rfl | hne
    · have hself : reactor'.controllers j =
          { reactor.controllers j with registeredEvents := registered } := update_self ..
      rw [hself, if_pos rfl]
      exact ⟨rfl, rfl, rfl⟩
    have hother : reactor'.controllers j = reactor.controllers j := update_of_ne hne ..
    rw [hother, if_neg hne]
    exact ⟨rfl, rfl, rfl⟩
  refine ⟨h.entries.congr (fun j => (hctl j).1) (fun j => (hctl j).2.1) rfl rfl rfl,
    fun j => ?_, fun fd' hfd' => ?_, fun c hc => h.made c (mem_cons_of_mem _ hc)⟩
  · rcases eq_or_ne j i with rfl | hne
    · have hself := (hctl j).2.2.trans (if_pos rfl)
      refine ⟨(h.tracked j).requested, ?_, fun hnone => ?_, fun fd' hfd' => ?_, ?_⟩
      · rw [hself, hreg, registration]
        split
        · exact nofun
        next hne => exact hne
      · exact nomatch hfd.symm.trans ((hctl j).1.symm.trans hnone)
      · cases hfd.symm.trans ((hctl j).1.symm.trans hfd')
        rw [hself]
        exact update_self ..
      rw [hself]
      exact hrest.trans (owed_of_eq hreg).symm
    refine (h.tracked j).congr (hctl j).1 ((hctl j).2.2.trans (if_neg hne)) rfl
      (fun fd' hfd' => update_of_ne ?_ ..) ?_
    · rintro rfl
      exact hne (h.entries.distinct j i fd' hfd' hfd)
    refine (changesOf_cons_of_ne fun hj => ?_).symm
    exact hne (Option.some.inj (hj.symm.trans howner))
  refine (update_of_ne ?_ ..).trans (h.unheld fd' fun j hj => ?_)
  · rintro rfl
    exact hfd' i ((hctl i).1.trans hfd)
  exact hfd' j ((hctl j).1.trans hj)

omit [DecidableEq ι] in
theorem target_congr (howner : reactor'.owner change.entry = reactor.owner change.entry)
    (hsame : ∀ j, reactor.owner change.entry = some j →
      (reactor'.controllers j).handle = (reactor.controllers j).handle ∧
      (reactor'.controllers j).registeredEvents = (reactor.controllers j).registeredEvents) :
    reactor'.target change = reactor.target change := by
  rw [target, target, howner]
  rcases hj : reactor.owner change.entry with _ | j
  · rfl
  obtain ⟨hhandle, hreg⟩ := hsame j hj
  rw [Option.bind_some, Option.bind_some, hhandle, hreg]

section

variable (h : Inv reactor (change :: rest))
include h

/-- A change for what is registered anyway, or for a controller without a descriptor, is never pending. -/
theorem Inv.target_cons (howner : reactor.owner change.entry = some i) : ∃ fd,
      (reactor.controllers i).handle = some fd ∧
      reactor.target change = some (i, fd, (reactor.controllers i).registeredEvents) ∧
      change.events = reactor.requested i ∧ change.events ≠ (reactor.controllers i).registeredEvents ∧
      (change.events = EPOLLET → (reactor.controllers i).registeredEvents ≠ 0) := by
  obtain ⟨_, hevents, hne⟩ := (h.tracked i).head howner
  rcases hfd : (reactor.controllers i).handle with _ | fd
  · obtain ⟨hreg, hreq⟩ := (h.tracked i).closed hfd
    rw [hreg, hreq] at hne
    exact absurd rfl hne
  refine ⟨fd, rfl, ?_, hevents, fun heq => ?_, fun heq hzero => ?_⟩
  · rw [target, howner, Option.bind_some, hfd]
    rfl
  · have hremove : change.events ≠ EPOLLET := heq ▸ (h.tracked i).registered
    rw [← hevents, registration_of_ne hremove] at hne
    exact hne heq.symm
  rw [← hevents, heq, hzero] at hne
  exact absurd rfl hne

theorem Inv.remove (howner : reactor.owner change.entry = some i)
    (hfd : (reactor.controllers i).handle = some fd) (hevents : reactor.requested i = EPOLLET) :
    ∃ reactor', ((reactor.setInterest fd none).setRegistered i 0).retireRegistrationEntry i = reactor' ∧
      Inv reactor' rest ∧ ∀ c ∈ rest, reactor'.target c = reactor.target c := by
  obtain ⟨hrest, _⟩ := (h.tracked i).head howner
  have hregistration : (0 : EpollEvents) = registration (reactor.requested i) := by
    rw [hevents]
    rfl
  have hsettled := h.settle howner hfd 0 hregistration
  have hself : ((reactor.setInterest fd none).setRegistered i 0).controllers i =
      { reactor.controllers i with registeredEvents := 0 } := update_self ..
  have hhandle : (((reactor.setInterest fd none).setRegistered i 0).controllers i).handle = some fd :=
    (congrArg IOController.handle hself).trans hfd
  obtain ⟨reactor', hretire, hinv, hsame, hothers, hslot, _, _⟩ :=
    hsettled.retire hhandle (congrArg IOController.registeredEvents hself) hevents
  refine ⟨reactor', hretire, hinv, fun c hc => ?_⟩
  -- The changes that are left belong to others.
  have hc := ne_of_changesOf_eq_nil hrest c hc
  rw [target, target]
  rcases hj : reactor.owner c.entry with _ | j
  · have hnone : reactor'.owner c.entry = none := by
      rcases hj' : reactor'.owner c.entry with _ | j
      · rfl
      rcases eq_or_ne j i with rfl | hne
      · exact nomatch hslot.symm.trans ((hinv.entries.owner j c.entry).mp hj')
      exact nomatch hj.symm.trans ((hothers j hne c.entry).mp hj')
    rw [hnone]
    rfl
  have hne : j ≠ i := by
    rintro rfl
    exact hc hj
  have hother : ((reactor.setInterest fd (reported 0)).setRegistered i 0).controllers j =
      reactor.controllers j := update_of_ne hne ..
  rw [(hothers j hne c.entry).mpr hj, Option.bind_some, Option.bind_some, (hsame j).1, (hsame j).2,
    hother]

/-- A change is erased, and what has been requested is registered and reported; or its calls fail. -/
theorem Inv.flushChange :
    (∃ reactor', reactor.flushChange outcomes change = .erased reactor' ∧ Inv reactor' rest ∧
      ∀ c ∈ rest, reactor'.target c = reactor.target c) ∨
    ∃ i errno reactor', reactor.flushChange outcomes change = .failed i errno reactor' ∧
      reactor.owner change.entry = some i ∧ reactor'.owner = reactor.owner ∧
      fails outcomes reactor change ∧
      (¬ loses outcomes reactor change → Inv reactor' (change :: rest)) := by
  rcases howner : reactor.owner change.entry with _ | i
  · -- The entry has been retired.
    have htarget : reactor.target change = none := by rw [target, howner, Option.bind_none]
    refine Or.inl ⟨reactor, by rw [EpollReactor.flushChange, htarget], ?_, fun _ _ => rfl⟩
    refine h.congr_pending (fun j => ?_) fun c hc => h.made c (mem_cons_of_mem _ hc)
    refine (changesOf_cons_of_ne ?_).symm
    rw [howner]
    exact nofun
  obtain ⟨fd, hfd, htarget, hevents, hne, hremove⟩ := h.target_cons howner
  obtain ⟨hrest, _⟩ := (h.tracked i).head howner
  rw [EpollReactor.flushChange, htarget]
  dsimp only
  rw [if_neg hne]
  by_cases hdel : change.events = EPOLLET
  · rw [if_pos hdel, if_neg (hremove hdel)]
    rcases hres : outcomes .DEL fd with _ | errno
    · obtain ⟨reactor', hretire, hinv, htargets⟩ := h.remove howner hfd (hevents.symm.trans hdel)
      exact Or.inl ⟨reactor', congrArg Flushed.erased hretire, hinv, htargets⟩
    by_cases hnoent : errno = ENOENT
    · obtain ⟨reactor', hretire, hinv, htargets⟩ := h.remove howner hfd (hevents.symm.trans hdel)
      rw [afterCtl, if_pos hnoent]
      dsimp only
      rw [if_pos hnoent]
      exact Or.inl ⟨reactor', congrArg Flushed.erased hretire, hinv, htargets⟩
    right
    rw [afterCtl, if_neg hnoent]
    dsimp only
    rw [if_neg hnoent, setInterest, update_eq_self]
    refine ⟨i, errno, reactor, rfl, rfl, rfl, ⟨i, fd, _, htarget, ?_⟩, fun _ => h⟩
    rw [if_pos hdel]
    exact ⟨errno, hres, hnoent⟩
  rw [if_neg hdel]
  have hinterest := (h.tracked i).interest fd hfd
  rcases hres : (register outcomes fd (reactor.controllers i).registeredEvents change.events
    (reactor.interest fd)).1 with _ | errno
  · -- The kernel reports the new events.
    have hreported : some change.events = reported change.events := by
      rw [reported, if_neg (by rw [hevents]; exact (h.tracked i).requested)]
    have hsettled := h.settle howner hfd change.events
      (by rw [← hevents, registration_of_ne hdel])
    left
    rw [register_snd_of_none hres, hreported]
    refine ⟨_, rfl, hsettled, fun c hc => target_congr rfl fun j hj => ?_⟩
    have hne : j ≠ i := by
      rintro rfl
      exact ne_of_changesOf_eq_nil hrest c hc hj
    have hother : ((reactor.setInterest fd (reported change.events)).setRegistered i
      change.events).controllers j = reactor.controllers j := update_of_ne hne ..
    rw [hother]
    exact ⟨rfl, rfl⟩
  right
  refine ⟨i, errno, _, rfl, rfl, rfl, ⟨i, fd, _, htarget, ?_⟩, fun hkept => ?_⟩
  · rw [if_neg hdel, register_fst _ none (reactor.interest fd), hres]
    exact nofun
  rw [register_snd_of_some hres hinterest, setInterest, update_eq_self]
  · exact h
  intro hreg hlost
  by_contra hadd
  exact hkept ⟨i, fd, _, htarget, hdel, hreg, hlost, hadd⟩

end

/-! ## Flushes -/

/-- No call fails but for the last of the changes, and no descriptor is lost. -/
structure Orderly (outcomes : EpollOutcomes) (reactor : EpollReactor ι) (pending : List PendingChange) :
    Prop where
  last : ∀ before change after, pending = before ++ change :: after →
    fails outcomes reactor change → after = []
  kept : ∀ change ∈ pending, ¬ loses outcomes reactor change

omit [DecidableEq ι] in
theorem Orderly.tail (h : Orderly outcomes reactor (change :: rest))
    (htarget : ∀ c ∈ rest, reactor'.target c = reactor.target c) : Orderly outcomes reactor' rest where
  last before c after hsplit hfails := by
    refine h.last (change :: before) c after (by rw [hsplit]; rfl) ?_
    rwa [fails, htarget c (by rw [hsplit]; exact mem_append_cons_self)] at hfails
  kept c hc hloses := by
    rw [loses, htarget c hc] at hloses
    exact h.kept c (mem_cons_of_mem _ hc) hloses

/-- After a flush nothing is pending but for a controller whose calls have failed. -/
def Applied (reactor : EpollReactor ι) : Prop :=
  ∀ failed, reactor.lastFlush = some failed → ∀ i, failed ≠ some i →
    changesOf reactor.owner reactor.pendingChanges i = []

theorem Inv.flushFrom (h : Inv reactor pending) (horder : Orderly outcomes reactor pending) :
    ∃ code reactor', EpollReactor.flushFrom outcomes pending reactor = (code, reactor') ∧
      Inv reactor' reactor'.pendingChanges ∧ Applied reactor' := by
  induction pending generalizing reactor with
  | nil => exact ⟨0, _, rfl, h.of_eq rfl rfl rfl rfl rfl rfl, fun _ _ _ _ => rfl⟩
  | cons change rest ih =>
  rw [EpollReactor.flushFrom]
  rcases @Inv.flushChange _ _ _ _ _ outcomes h with ⟨reactor₁, hflush, h₁, htargets⟩ |
    ⟨i, errno, reactor₁, hflush, howner, howners, hfails, hkept⟩
  · rw [hflush]
    exact ih h₁ (horder.tail htargets)
  rw [hflush]
  -- Nothing is left behind the change.
  have hrest := horder.last [] change rest rfl hfails
  subst hrest
  have hinv := hkept (horder.kept change mem_cons_self)
  refine ⟨-1, _, rfl, hinv.of_eq rfl rfl rfl rfl rfl rfl, fun failed hfailed j hne => ?_⟩
  cases hfailed
  refine changesOf_eq_nil fun c hc => ?_
  rw [List.mem_singleton.mp hc]
  dsimp only
  rw [howners, howner]
  exact hne

end Galay.Kernel.EpollReactor
