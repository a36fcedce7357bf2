import Galay.Kernel.EpollFlush

/-!
# Runs of the reactor

Where no call of a flush fails but for its last change, every flush leaves each controller as it has been
requested, up to the one whose call has failed. Otherwise the changes behind the one that has failed are
left as well, and the next flush starts with it again.
-/

namespace Galay.Kernel.EpollReactor

open Function (update update_of_ne update_self forall_update_iff)

variable {ι : Type*} [DecidableEq ι] {reactor reactor' : EpollReactor ι} {i j : ι} {fd : Nat}
  {event : EpollEvents} {pending : List PendingChange} {outcomes : EpollOutcomes}

/-! ## Events -/

theorem or_ne_zero {b : EpollEvents} (h : a.msb = true) : a ||| b ≠ 0 := by
  intro hzero
  have hmsb := congrArg BitVec.msb hzero
  rw [BitVec.msb_or, h] at hmsb
  cases hmsb

theorem msb_ioTypeToEpollEvents (type : BitVec 32) : (ioTypeToEpollEvents type).msb = true := by
  rw [ioTypeToEpollEvents]
  split <;> split <;> rfl

theorem buildEvents_ne_zero (controller : IOController) : controller.buildEvents ≠ 0 := by
  rw [IOController.buildEvents]
  split
  · exact or_ne_zero (msb_ioTypeToEpollEvents _)
  refine or_ne_zero ?_
  rw [BitVec.msb_or, msb_ioTypeToEpollEvents]
  rfl

theorem sequenceInterestToEpollEvents_ne_zero (mask : BitVec 8) :
    sequenceInterestToEpollEvents mask ≠ 0 := by
  rw [sequenceInterestToEpollEvents]
  split <;> split <;> exact nofun

/-! ## Requests -/

/-- The invariant between two operations. -/
structure Settled (reactor : EpollReactor ι) : Prop where
  inv : Inv reactor reactor.pendingChanges
  applied : Applied reactor

theorem Inv.armPersistent (h : Inv reactor reactor.pendingChanges) :
    ∃ reactor' events, reactor.armPersistent i event = (reactor', events) ∧
      Inv reactor' reactor'.pendingChanges ∧ ∀ e, events = some e → e ≠ 0 := by
  rw [EpollReactor.armPersistent]
  rcases hfd : (reactor.controllers i).handle with _ | fd
  · rw [registrationEntryForController, hfd]
    exact ⟨reactor, none, rfl, h, by rintro _ ⟨⟩⟩
  obtain ⟨entry, reactor₁, hentry, h₁, _, _, _, _, hpend⟩ := registrationEntryForController_eq h hfd
  rw [hentry]
  rw [← hpend] at h₁
  refine ⟨_, _, rfl, h₁.setController rfl rfl rfl, fun e he => ?_⟩
  cases he
  exact buildEvents_ne_zero _

theorem Inv.syncSequenceInterestMask (h : Inv reactor pending) :
    Inv (reactor.syncSequenceInterestMask i) pending :=
  h.setController rfl rfl rfl

theorem Inv.prepare (h : Inv reactor reactor.pendingChanges) (request : Request) :
    ∃ reactor' events, reactor.prepare i request = (reactor', events) ∧
      Inv reactor' reactor'.pendingChanges ∧ ∀ e, events = some e → e ≠ 0 := by
  cases request with
  | add =>
    refine ⟨_, _, rfl, h, fun e he => ?_⟩
    cases he
    exact buildEvents_ne_zero _
  | armPersistentRead | armPersistentWrite => exact h.armPersistent
  | addFileRead | addFileWrite =>
    refine ⟨_, _, rfl, h, fun e he => ?_⟩
    cases he
    exact nofun
  | addSequence =>
    rw [EpollReactor.prepare]
    split
    · exact @Inv.armPersistent _ _ (reactor.syncSequenceInterestMask i) _ _ h.syncSequenceInterestMask
    refine ⟨_, _, rfl, h.syncSequenceInterestMask, fun e he => ?_⟩
    cases he
    exact buildEvents_ne_zero _
  | remove =>
    rw [EpollReactor.prepare]
    split
    · exact ⟨_, _, rfl, h, nofun⟩
    refine ⟨_, _, rfl, h.setController rfl rfl rfl, fun e he => ?_⟩
    cases he
    exact nofun
  | processSequence mask =>
    refine ⟨_, _, rfl, h, fun e he => ?_⟩
    split at he
    · cases he
    cases he
    exact sequenceInterestToEpollEvents_ne_zero mask
  | syncEvents =>
  refine ⟨_, _, rfl, ?_, fun e he => ?_⟩
  · split
    · exact h.syncSequenceInterestMask
    exact h
  cases he
  exact buildEvents_ne_zero _

theorem Settled.request (h : Settled reactor) {request : Request}
    (horder : ∀ reactor', reactor.beforeFlush (.request i request) = some reactor' →
      Orderly outcomes reactor' reactor'.pendingChanges) :
    Settled (reactor.step outcomes (.request i request)) := by
  obtain ⟨reactor₁, events, hprepare, h₁, hevents⟩ := @Inv.prepare _ _ _ i h.inv request
  rw [step, hprepare]
  rw [beforeFlush, hprepare] at horder
  rcases events with _ | events
  · exact ⟨h₁.of_eq rfl rfl rfl rfl rfl rfl, nofun⟩
  obtain ⟨reactor₂, hqueue, h₂, hlast⟩ := @Inv.queueChange _ _ _ i _ h₁ (hevents events rfl)
  have hunflushed : Applied reactor₂ := fun failed hfailed => nomatch hlast.symm.trans hfailed
  dsimp only at horder ⊢
  rw [applyEvents]
  rcases hqueue with hqueue | ⟨code, hqueue⟩
  · rw [hqueue] at horder ⊢
    dsimp only at horder ⊢
    by_cases hthr : reactor₂.pendingChanges.length ≥ BATCH_THRESHOLD
    · rw [if_pos hthr] at horder ⊢
      obtain ⟨_, reactor', hflush, hinv, happlied⟩ := h₂.flushFrom (horder reactor₂ rfl)
      rw [flushPendingChanges, hflush]
      exact ⟨hinv, happlied⟩
    rw [if_neg hthr]
    exact ⟨h₂, hunflushed⟩
  rw [hqueue]
  exact ⟨h₂, hunflushed⟩

/-! ## Descriptors that come and go -/

theorem releaseRegistrationOwnerSlot_frame :
    (reactor.releaseRegistrationOwnerSlot i).interest = reactor.interest ∧
      (reactor.releaseRegistrationOwnerSlot i).requested = reactor.requested ∧
      (reactor.releaseRegistrationOwnerSlot i).pendingChanges = reactor.pendingChanges := by
  rw [releaseRegistrationOwnerSlot]
  split
  · exact ⟨rfl, rfl, rfl⟩
  dsimp only
  split <;> exact ⟨rfl, rfl, rfl⟩

theorem retireRegistrationEntry_frame :
    (reactor.retireRegistrationEntry i).interest = reactor.interest ∧
      (reactor.retireRegistrationEntry i).requested = reactor.requested ∧
      (reactor.retireRegistrationEntry i).pendingChanges = reactor.pendingChanges := by
  rw [retireRegistrationEntry]
  split
  · exact ⟨rfl, rfl, rfl⟩
  split
  · exact ⟨rfl, rfl, rfl⟩
  split
  · exact ⟨rfl, rfl, rfl⟩
  exact releaseRegistrationOwnerSlot_frame

/-- Retiring an entry reads nothing of what the kernel reports or what has been requested. -/
theorem retireRegistrationEntry_with (h : Entries reactor)
    (hfd : (reactor.controllers i).handle = some fd) (interest : Nat → Option EpollEvents)
    (requested : ι → EpollEvents) :
    { reactor with interest, requested }.retireRegistrationEntry i =
      { reactor.retireRegistrationEntry i with interest, requested } := by
  have h' : Entries { reactor with interest, requested } :=
    h.congr (fun _ => rfl) (fun _ => rfl) rfl rfl rfl
  rcases hentry : reactor.registrationEntries fd with _ | entry
  · have hself : reactor.retireRegistrationEntry i = reactor := by
      rw [retireRegistrationEntry, hfd]
      dsimp only
      rw [hentry]
    have hself' : { reactor with interest, requested }.retireRegistrationEntry i =
        { reactor with interest, requested } := by
      rw [retireRegistrationEntry]
      dsimp only
      rw [hfd]
      dsimp only
      rw [hentry]
    rw [hself, hself']
  rw [retireRegistrationEntry_eq h hfd hentry, retireRegistrationEntry_eq h' hfd hentry]
  rfl

/-- After `discardPendingChange` nothing is pending for the controller. -/
theorem Inv.discard (h : Inv reactor reactor.pendingChanges) : ∃ pending,
    reactor.discardPendingChange i = { reactor with pendingChanges := pending } ∧
      changesOf reactor.owner pending i = [] ∧
      (∀ j ≠ i, changesOf reactor.owner pending j =
        changesOf reactor.owner reactor.pendingChanges j) ∧
      ∀ change ∈ pending, change.entry < reactor.entriesMade := by
  rw [discardPendingChange]
  rcases findPendingChangeIndex_cases (h.tracked i) with ⟨hindex, hnone, _⟩ |
    ⟨before, change, after, hsplit, hindex, howner, hbefore, hafter, _⟩
  · rw [if_neg (not_not.mpr hindex)]
    exact ⟨_, rfl, hnone, fun _ _ => rfl, h.made⟩
  have hlen : reactor.findPendingChangeIndex i ≠ reactor.pendingChanges.length := by
    rw [hindex, hsplit, List.length_append, List.length_cons]
    omega
  rw [if_pos hlen, erasePendingChange, hindex, hsplit,
    List.eraseIdx_append_of_length_le (Nat.le_refl _), Nat.sub_self, List.eraseIdx_cons_zero]
  refine ⟨_, rfl, ?_, fun j hne => changesOf_erase howner hne, fun c hc => h.made c ?_⟩
  · rw [changesOf_append, hbefore, hafter]
    rfl
  rw [hsplit]
  rcases List.mem_append.mp hc with hc | hc
  · exact List.mem_append_left _ hc
  exact List.mem_append_right _ (List.mem_cons_of_mem _ hc)

/-- A controller that nothing refers to gets another descriptor, or loses the one it has. -/
theorem Inv.setHandle (h : Inv reactor pending)
    (hslot : (reactor.controllers i).registrationOwnerSlot = none)
    (hslot' : controller.registrationOwnerSlot = none)
    (hreg : (reactor.controllers i).registeredEvents = 0)
    (hreg' : controller.registeredEvents = 0) (hreq : reactor.requested i = EPOLLET)
    (hnew : ∀ fd, controller.handle = some fd → ∀ j, (reactor.controllers j).handle ≠ some fd) :
    Inv (reactor.setController i controller) pending := by
  have hother : ∀ j ≠ i, (reactor.setController i controller).controllers j =
      reactor.controllers j := fun j hne => update_of_ne hne ..
  have hself : (reactor.setController i controller).controllers i = controller := update_self ..
  refine ⟨⟨fun j k fd hj hk => ?_, ?_, fun fd entry hentry => ?_, ?_, h.entries.made⟩, fun j => ?_,
    fun fd hfd => ?_, h.made⟩
  · rcases eq_or_ne j i with rfl | hji
    · rcases eq_or_ne k j with rfl | hkj
      · rfl
      rw [hself] at hj
      rw [hother k hkj] at hk
      exact absurd hk (hnew fd hj k)
    rw [hother j hji] at hj
    rcases eq_or_ne k i with rfl | hki
    · rw [hself] at hk
      exact absurd hj (hnew fd hk j)
    rw [hother k hki] at hk
    exact h.entries.distinct j k fd hj hk
  · exact (forall_update_iff _ fun j (controller : IOController) => ∀ entry,
      controller.registrationOwnerSlot = some entry → ∃ fd, controller.handle = some fd ∧
        reactor.registrationEntries fd = some entry).2
      ⟨fun entry hentry => absurd (hslot'.symm.trans hentry) nofun, fun j _ => h.entries.slot j⟩
  · obtain ⟨j, hj, hs⟩ := h.entries.entry fd entry hentry
    have hne : j ≠ i := by
      rintro rfl
      exact nomatch hslot.symm.trans hs
    refine ⟨j, ?_⟩
    rw [hother j hne]
    exact ⟨hj, hs⟩
  · exact (forall_update_iff _ fun j (controller : IOController) => ∀ entry,
      reactor.owner entry = some j ↔ controller.registrationOwnerSlot = some entry).2
      ⟨hslot'.trans hslot.symm ▸ h.entries.owner i, fun j _ => h.entries.owner j⟩
  · rcases eq_or_ne j i with rfl | hne
    · refine ⟨(h.tracked j).requested, ?_, fun _ => ?_, fun fd hfd => ?_, ?_⟩
      · rw [hself, hreg']
        exact nofun
      · rw [hself]
        exact ⟨hreg', hreq⟩
      · rw [hself] at hfd ⊢
        rw [hreg']
        exact h.unheld fd (hnew fd hfd)
      rw [hself, hreg', ← hreg]
      exact (h.tracked j).changes
    exact (h.tracked j).congr (by rw [hother j hne]) (by rw [hother j hne]) rfl (fun _ _ => rfl) rfl
  by_cases hheld : (reactor.controllers i).handle = some fd
  · exact ((h.tracked i).interest fd hheld).trans (by rw [hreg]; rfl)
  refine h.unheld fd fun j hj => hfd j ?_
  rw [hother j (by rintro rfl; exact hheld hj)]
  exact hj

theorem Inv.clear (h : Inv reactor reactor.pendingChanges)
    (hfd : (reactor.controllers i).handle = some fd) (hnone : changesOf reactor.owner pending i = [])
    (hothers : ∀ j ≠ i, changesOf reactor.owner pending j =
      changesOf reactor.owner reactor.pendingChanges j)
    (hmade : ∀ change ∈ pending, change.entry < reactor.entriesMade) {controller : IOController}
    (hhandle : controller.handle = some fd)
    (hslot : controller.registrationOwnerSlot = (reactor.controllers i).registrationOwnerSlot)
    (hreg : controller.registeredEvents = 0)
    (hctls : reactor'.controllers = update reactor.controllers i controller)
    (hents : reactor'.registrationEntries = reactor.registrationEntries)
    (howner : reactor'.owner = reactor.owner) (hentriesMade : reactor'.entriesMade = reactor.entriesMade)
    (hinterest : reactor'.interest = update reactor.interest fd none)
    (hreq : reactor'.requested = update reactor.requested i EPOLLET) :
    Inv reactor' pending := by
  have hself : reactor'.controllers i = controller := by rw [hctls, update_self]
  have hother : ∀ j ≠ i, reactor'.controllers j = reactor.controllers j := by
    intro j hne
    rw [hctls, update_of_ne hne]
  have hsame : ∀ j, (reactor'.controllers j).handle = (reactor.controllers j).handle ∧
      (reactor'.controllers j).registrationOwnerSlot =
        (reactor.controllers j).registrationOwnerSlot := by
    intro j
    rcases eq_or_ne j i with rfl | hne
    · rw [hself]
      exact ⟨hhandle.trans hfd.symm, hslot⟩
    rw [hother j hne]
    exact ⟨rfl, rfl⟩
  refine ⟨h.entries.congr (fun j => (hsame j).1) (fun j => (hsame j).2) hents howner hentriesMade,
    fun j => ?_, fun fd' hfd' => ?_, fun c hc => by rw [hentriesMade]; exact hmade c hc⟩
  · rcases eq_or_ne j i with rfl | hne
    · have hreq' : reactor'.requested j = EPOLLET := by rw [hreq, update_self]
      refine ⟨by rw [hreq']; exact nofun, by rw [hself, hreg]; exact nofun,
        fun _ => ⟨by rw [hself, hreg], hreq'⟩, fun fd' hfd' => ?_, ?_⟩
      · cases hfd.symm.trans ((hsame j).1.symm.trans hfd')
        rw [hself, hreg, hinterest, update_self]
        rfl
      rw [howner, hnone, hself, hreg, hreq']
      rfl
    refine (h.tracked j).congr (hsame j).1 (by rw [hother j hne]) ?_ (fun fd' hfd' => ?_) ?_
    · rw [hreq, update_of_ne hne]
    · rw [hinterest, update_of_ne]
      rintro rfl
      exact hne (h.entries.distinct j i fd' hfd' hfd)
    rw [howner]
    exact hothers j hne
  rw [hinterest]
  rcases eq_or_ne fd' fd with rfl | hne
  · exact update_self ..
  rw [update_of_ne hne]
  exact h.unheld fd' fun j hj => hfd' j ((hsame j).1.trans hj)

theorem Settled.addClose (h : Settled reactor) : Settled (reactor.addClose i) := by
  rw [EpollReactor.addClose]
  rcases hfd : (reactor.controllers i).handle with _ | fd
  · exact h
  obtain ⟨pending, hdiscard, hnone, hothers, hmade⟩ := @Inv.discard _ _ _ i h.inv
  dsimp only
  rw [hdiscard]
  generalize hctl : { reactor.controllers i with
    type := IOEventType.INVALID, persistentEvents := 0, sequenceInterestMask := 0,
    activeSequences := 0, registeredEvents := 0 } = controller
  have hhandle : controller.handle = some fd := by
    rw [← hctl]
    exact hfd
  have hslot : controller.registrationOwnerSlot = (reactor.controllers i).registrationOwnerSlot := by
    rw [← hctl]
  have hreg : controller.registeredEvents = 0 := by rw [← hctl]
  generalize hcleared : ({ reactor with pendingChanges := pending } : EpollReactor ι).setController i
    controller = reactor₁
  have hself : reactor₁.controllers i = controller := by
    rw [← hcleared]
    exact update_self ..
  have hpend : reactor₁.pendingChanges = pending := by
    rw [← hcleared]
    rfl
  have hinv : Inv { reactor₁ with
      interest := update reactor₁.interest fd none
      requested := update reactor₁.requested i EPOLLET } pending := by
    refine h.inv.clear hfd hnone hothers hmade hhandle hslot hreg ?_ ?_ ?_ ?_ ?_ ?_
    all_goals
      rw [← hcleared]
      rfl
  have hents : Entries reactor₁ :=
    hinv.entries.congr (fun _ => rfl) (fun _ => rfl) rfl rfl rfl
  have hfd₁ : (reactor₁.controllers i).handle = some fd := by rw [hself, hhandle]
  have hreq : update reactor₁.requested i EPOLLET i = EPOLLET :=
    update_self ..
  obtain ⟨reactor₂, hretire, hinv₂, hsame, _, hslot₂, hrequested₂, _⟩ :=
    hinv.retire hfd₁ (by rw [hself, hreg]) hreq
  rw [retireRegistrationEntry_with hents hfd₁] at hretire
  obtain ⟨hframe, hframe', hframe''⟩ := @retireRegistrationEntry_frame _ _ reactor₁ i
  have hregistered₂ := (hsame i).2.trans (by rw [hself, hreg])
  have hlost : Inv (reactor₂.setController i { reactor₂.controllers i with handle := none }) pending :=
    hinv₂.setHandle hslot₂ hslot₂ hregistered₂ hregistered₂ ((congrFun hrequested₂ i).trans hreq)
      nofun
  subst hretire
  constructor
  · show Inv _ (reactor₁.retireRegistrationEntry i).pendingChanges
    rw [hframe'', hpend]
    refine hlost.of_eq rfl rfl rfl rfl ?_ ?_
    · show update (reactor₁.retireRegistrationEntry i).interest fd none = _
      rw [hframe]
      rfl
    show update (reactor₁.retireRegistrationEntry i).requested i EPOLLET = _
    rw [hframe']
    rfl
  exact nofun

theorem Settled.open (h : Settled reactor) (hclosed : (reactor.controllers i).handle = none)
    (hnew : ∀ j, (reactor.controllers j).handle ≠ some fd) :
    Settled { reactor.setController i { handle := some fd } with lastFlush := none } := by
  have hslot : (reactor.controllers i).registrationOwnerSlot = none := by
    rcases hslot : (reactor.controllers i).registrationOwnerSlot with _ | entry
    · rfl
    obtain ⟨fd', hfd', _⟩ := h.inv.entries.slot i entry hslot
    exact nomatch hclosed.symm.trans hfd'
  obtain ⟨hzero, hreq⟩ := (h.inv.tracked i).closed hclosed
  have hinv : Inv (reactor.setController i { handle := some fd }) reactor.pendingChanges := by
    refine h.inv.setHandle hslot rfl hzero rfl hreq ?_
    rintro _ ⟨⟩
    exact hnew
  exact ⟨hinv.of_eq rfl rfl rfl rfl rfl rfl, nofun⟩

/-! ## Runs -/

/-- Where an operation flushes, it does so in order. -/
def OrderlyStep (reactor : EpollReactor ι) (outcomes : EpollOutcomes) (op : Op ι) : Prop :=
  ∀ reactor', reactor.beforeFlush op = some reactor' →
    Orderly outcomes reactor' reactor'.pendingChanges

theorem Settled.step (h : Settled reactor) {op : Op ι} (henabled : reactor.Enabled op)
    (horder : OrderlyStep reactor outcomes op) : Settled (reactor.step outcomes op) := by
  cases op with
  | request i request => exact h.request horder
  | flushPendingChanges =>
    obtain ⟨_, reactor', hflush, hinv, happlied⟩ := h.inv.flushFrom (horder reactor rfl)
    rw [EpollReactor.step, EpollReactor.flushPendingChanges, hflush]
    exact ⟨hinv, happlied⟩
  | addClose i => exact h.addClose
  | «open» i fd => exact h.open henabled.1 henabled.2
  | await i type activeSequences =>
  have hinv : Inv (reactor.setController i { reactor.controllers i with type, activeSequences })
      reactor.pendingChanges := h.inv.setController rfl rfl rfl
  exact ⟨hinv.of_eq rfl rfl rfl rfl rfl rfl, nofun⟩

/-- The states of the runs whose steps satisfy `P`. -/
inductive Run (P : EpollReactor ι → EpollOutcomes → Op ι → Prop) : EpollReactor ι → Prop
  | initial : Run P {}
  | step {reactor : EpollReactor ι} {outcomes : EpollOutcomes} {op : Op ι} (hrun : Run P reactor)
    (henabled : reactor.Enabled op) (h : P reactor outcomes op) : Run P (reactor.step outcomes op)

/-- No controller has two changes pending, and after a flush each, but for one whose own calls have
failed, is registered and reported as it has last been requested. -/
structure Bookkept (reactor : EpollReactor ι) : Prop where
  single : ∀ i, (changesOf reactor.owner reactor.pendingChanges i).length ≤ 1
  flushed : ∀ failed, reactor.lastFlush = some failed →
    ∀ i fd, (reactor.controllers i).handle = some fd → failed ≠ some i →
      (reactor.controllers i).registeredEvents = registration (reactor.requested i) ∧
        reactor.interest fd = reported (registration (reactor.requested i))

theorem Settled.of_run (hrun : Run OrderlyStep reactor) : Settled reactor := by
  induction hrun with
  | initial => exact ⟨Inv.initial, nofun⟩
  | step _ henabled horder ih => exact ih.step henabled horder

theorem bookkept_of_orderly (hrun : Run OrderlyStep reactor) : Bookkept reactor := by
  have h := Settled.of_run hrun
  constructor
  · intro i
    rw [(h.inv.tracked i).changes, owed]
    split
    · exact Nat.zero_le 1
    · exact Nat.le_refl 1
  intro failed hfailed i fd hfd hne
  have htracked := h.inv.tracked i
  have hreg := eq_of_owed_eq_nil (htracked.changes.symm.trans (h.applied failed hfailed i hne))
  exact ⟨hreg, (htracked.interest fd hfd).trans (congrArg reported hreg)⟩

omit [DecidableEq ι] in
/-- A kernel that takes everything. -/
theorem Orderly.of_success (reactor : EpollReactor ι) (pending : List PendingChange) :
    Orderly (fun _ _ => none) reactor pending where
  last before change after _ hfails := by
    obtain ⟨i, fd, registered, _, hfails⟩ := hfails
    split at hfails
    · obtain ⟨errno, herrno, _⟩ := hfails
      cases herrno
    rw [register] at hfails
    split at hfails <;> exact absurd rfl hfails
  kept change _ hloses := by
    obtain ⟨i, fd, registered, _, _, _, hlost, _⟩ := hloses
    cases hlost

/-- Two descriptors, of which the kernel does not take the first. -/
def refuseFirst : EpollOutcomes := fun _ fd => if fd = 5 then some 1 else none

def twoRequested (outcomes : EpollOutcomes) : EpollReactor (Fin 2) :=
  let reactor := ({} : EpollReactor (Fin 2)).step outcomes (.open 0 5)
  let reactor := reactor.step outcomes (.open 1 6)
  let reactor := reactor.step outcomes (.request 0 .addFileRead)
  reactor.step outcomes (.request 1 .addFileRead)

theorem run_twoRequested
    (hP : ∀ reactor op, reactor.beforeFlush op = none → P reactor outcomes op) :
    Run P (twoRequested outcomes) := by
  have hfirst : Run P (({} : EpollReactor (Fin 2)).step outcomes (.open 0 5)) :=
    Run.initial.step ⟨rfl, nofun⟩ (hP _ _ rfl)
  have hnew : ∀ j, ((({} : EpollReactor (Fin 2)).step outcomes (.open 0 5)).controllers j).handle ≠
      some 6
    | 0 => show some 5 ≠ some 6 by decide
    | 1 => show none ≠ some 6 by decide
  have hsecond : Run P ((({} : EpollReactor (Fin 2)).step outcomes (.open 0 5)).step outcomes
      (.open 1 6)) := hfirst.step ⟨rfl, hnew⟩ (hP _ _ rfl)
  have hrequest : Run P (((({} : EpollReactor (Fin 2)).step outcomes (.open 0 5)).step outcomes
      (.open 1 6)).step outcomes (.request 0 .addFileRead)) := hsecond.step trivial (hP _ _ rfl)
  exact @Run.step _ _ _ _ outcomes (.request 1 .addFileRead) hrequest trivial (hP _ _ rfl)

theorem bookkept_of_orderly_two :
    Bookkept ((twoRequested fun _ _ => none).step (fun _ _ => none) .flushPendingChanges) :=
  bookkept_of_orderly (.step (run_twoRequested fun _ _ hnone _ hflush =>
    nomatch hnone.symm.trans hflush) trivial fun _ _ => .of_success _ _)

/-- The second of two requests is not registered, since the first is refused. -/
theorem not_bookkept : ¬ ∀ reactor : EpollReactor (Fin 2), Run (fun _ _ _ => True) reactor →
    Bookkept reactor := by
  intro hall
  have hrun : Run (fun _ _ _ => True) (twoRequested refuseFirst) :=
    run_twoRequested fun _ _ _ => trivial
  have hbook := hall _ (@Run.step _ _ _ _ refuseFirst .flushPendingChanges hrun trivial trivial)
  obtain ⟨hreg, _⟩ := hbook.flushed (some 0) rfl 1 6 rfl nofun
  exact absurd hreg (by decide)

end Galay.Kernel.EpollReactor
