import Galay.Lib.Run
import Mathlib.Data.List.Infix

/-!
# Cancelling calls (`galay-rpc/kernel/rpc_call.h`)

Calls of `registerCallback` and of `cancel` on one source, one atomic operation or access to a link
at a time. `ι` names the registrations, each with the call that makes it, and `κ` the calls of
`cancel`; `callback` tells which registrations hold a function.
-/

namespace Galay.Rpc.Cancellation

open Function (update update_self update_of_ne forall_update_iff exists_update_iff)

variable {ι κ : Type*}

/-- Where a call of `registerCallback` is. -/
inductive RegisterPc (ι : Type*)
  | idle
  /-- Before `next` becomes the head that was loaded. -/
  | loaded (head : Option ι)
  /-- Before the compare-exchange. -/
  | linked (head : Option ι)
  /-- Before `cancelled` is loaded. -/
  | pushed
  /-- In `notifyIfActive`. -/
  | notifying
  | calling
  | deactivating
  | finished

/-- Where a call of `cancel` is. -/
inductive CancelPc (ι : Type*)
  | idle
  /-- Before the head is loaded. -/
  | exchanged
  /-- At the head of the loop, then in `notifyIfActive`. -/
  | walking (registration : Option ι)
  | calling (registration : ι)
  | deactivating (registration : ι)
  /-- Before `next` is read. -/
  | following (registration : ι)
  | finished

structure State (ι κ : Type*) where
  callbacks : Option ι := none
  cancelled : Bool := false
  next : ι → Option ι := fun _ => none
  active : ι → Bool := fun _ => true
  /-- How often the callback has been called. -/
  calls : ι → Nat := fun _ => 0
  /-- Deactivated by its owner. -/
  retired : ι → Bool := fun _ => false
  registering : ι → RegisterPc ι := fun _ => .idle
  cancelling : κ → CancelPc ι := fun _ => .idle

section Steps

variable [DecidableEq ι] [DecidableEq κ] (callback : ι → Bool) (state : State ι κ)

/-- A step of `registerCallback`, or of the owner of the registration. -/
inductive RegisterStep (i : ι) : State ι κ → Prop
  | load (h : state.registering i = .idle) : RegisterStep i
    { state with registering := update state.registering i (.loaded state.callbacks) }
  | link {head : Option ι} (h : state.registering i = .loaded head) : RegisterStep i
    { state with
      next := update state.next i head
      registering := update state.registering i (.linked head) }
  | push {head : Option ι} (h : state.registering i = .linked head)
    (hhead : state.callbacks = head) : RegisterStep i
    { state with
      callbacks := some i
      registering := update state.registering i .pushed }
  -- The exchange fails, also without a reason.
  | retry {head : Option ι} (h : state.registering i = .linked head) : RegisterStep i
    { state with registering := update state.registering i (.loaded state.callbacks) }
  | check (h : state.registering i = .pushed) : RegisterStep i
    { state with
      registering := update state.registering i (if state.cancelled then .notifying else .finished) }
  | notify (h : state.registering i = .notifying) : RegisterStep i
    { state with
      registering := update state.registering i
        (if state.active i && callback i then .calling else .deactivating) }
  | call (h : state.registering i = .calling) : RegisterStep i
    { state with
      calls := update state.calls i (state.calls i + 1)
      registering := update state.registering i .finished }
  | deactivate (h : state.registering i = .deactivating) : RegisterStep i
    { state with
      active := update state.active i false
      registering := update state.registering i .finished }
  | retire (h : state.registering i = .finished) : RegisterStep i
    { state with
      active := update state.active i false
      retired := update state.retired i true }

/-- A step of `cancel`. -/
inductive CancelStep (k : κ) : State ι κ → Prop
  | exchange (h : state.cancelling k = .idle) : CancelStep k
    { state with
      cancelled := true
      cancelling := update state.cancelling k (if state.cancelled then .finished else .exchanged) }
  | load (h : state.cancelling k = .exchanged) : CancelStep k
    { state with cancelling := update state.cancelling k (.walking state.callbacks) }
  | stop (h : state.cancelling k = .walking none) : CancelStep k
    { state with cancelling := update state.cancelling k .finished }
  | notify {i : ι} (h : state.cancelling k = .walking (some i)) : CancelStep k
    { state with
      cancelling := update state.cancelling k
        (if state.active i && callback i then .calling i else .deactivating i) }
  | call {i : ι} (h : state.cancelling k = .calling i) : CancelStep k
    { state with
      calls := update state.calls i (state.calls i + 1)
      cancelling := update state.cancelling k (.following i) }
  | deactivate {i : ι} (h : state.cancelling k = .deactivating i) : CancelStep k
    { state with
      active := update state.active i false
      cancelling := update state.cancelling k (.following i) }
  | follow {i : ι} (h : state.cancelling k = .following i) : CancelStep k
    { state with cancelling := update state.cancelling k (.walking (state.next i)) }

/-- A step of any call. -/
inductive Step : State ι κ → Prop
  | register {after : State ι κ} (i : ι) (h : RegisterStep callback state i after) : Step after
  | cancel {after : State ι κ} (k : κ) (h : CancelStep callback state k after) : Step after

/-- The states that a source reaches. -/
def Reachable : Prop := Relation.ReflTransGen (Step callback) {} state

end Steps

/-! ## The list of callbacks -/

/-- The links from a head lead through these registrations. -/
def Linked (next : ι → Option ι) : Option ι → List ι → Prop
  | head, [] => head = none
  | head, i :: list => head = some i ∧ Linked next (next i) list

theorem Linked.head_eq {list : List ι} (h : Linked next head list) : list.head? = head := by
  cases list with
  | nil => exact h.symm
  | cons i list => exact h.1.symm

theorem Linked.of_suffix {path : List ι}
    (h : Linked next head list) (hpath : path <:+ list) : Linked next path.head? path := by
  obtain ⟨front, rfl⟩ := hpath
  induction front generalizing head with
  | nil => exact h.head_eq ▸ h
  | cons i front ih => exact ih h.2

theorem Linked.update_of_notMem [DecidableEq ι]
    (h : Linked next head list) (hi : i ∉ list) (link : Option ι) :
    Linked (update next i link) head list := by
  induction list generalizing head with
  | nil => exact h
  | cons j list ih =>
  obtain ⟨hne, hi⟩ := not_or.1 (mt List.mem_cons.2 hi)
  refine ⟨h.1, ?_⟩
  rw [update_of_ne (Ne.symm hne)]
  exact ih h.2 hi

/-! ## The invariant -/

/-- The registration is in the list. -/
def RegisterPc.Published : RegisterPc ι → Prop
  | .idle | .loaded _ | .linked _ => False
  | _ => True

/-- The call still has to look at `cancelled`, or to call the callback. -/
def RegisterPc.Owing : RegisterPc ι → Prop
  | .pushed | .notifying | .calling => True
  | _ => False

/-- The call will come to the registration. -/
def CancelPc.Ahead (list : List ι) (i : ι) : CancelPc ι → Prop
  | .exchanged => True
  | .walking registration => ∃ path, path <:+ list ∧ path.head? = registration ∧ i ∈ path
  | .calling registration => ∃ path, registration :: path <:+ list ∧ i ∈ registration :: path
  | .deactivating registration | .following registration =>
    ∃ path, registration :: path <:+ list ∧ i ∈ path
  | _ => False

/-- Nobody has to be notified. -/
def Waived (callback : ι → Bool) (state : State ι κ) (i : ι) : Prop :=
  state.retired i = true ∨ callback i = false

/-- The callback of a registration has been called, or somebody will see to it. -/
def Covered (callback : ι → Bool) (state : State ι κ) (list : List ι) (i : ι) : Prop :=
  Waived callback state i ∨ 0 < state.calls i ∨ (state.registering i).Owing ∨
    state.cancelled = false ∨ ∃ k, (state.cancelling k).Ahead list i

structure Inv (callback : ι → Bool) (state : State ι κ) (list : List ι) : Prop where
  linked : Linked state.next state.callbacks list
  nodup : list.Nodup
  published : ∀ i, i ∈ list ↔ (state.registering i).Published
  next_eq : ∀ i head, state.registering i = .linked head → state.next i = head
  active : ∀ i, state.active i = false → Waived callback state i
  register : ∀ i, state.registering i = .deactivating → Waived callback state i
  cancel : ∀ k i, state.cancelling k = .deactivating i → Waived callback state i
  cancelled : ∀ k, state.cancelling k ≠ .idle → state.cancelled = true
  covered : ∀ i ∈ list, Covered callback state list i

theorem Inv.start (callback : ι → Bool) : Inv callback ({} : State ι κ) [] where
  linked := rfl
  nodup := .nil
  published _ := ⟨nofun, nofun⟩
  next_eq := nofun
  active := nofun
  register := nofun
  cancel := nofun
  cancelled _ h := absurd rfl h
  covered := nofun

theorem called_pos [DecidableEq ι] (state : State ι κ) (i : ι) :
    0 < update state.calls i (state.calls i + 1) i := by
  rw [update_self]
  exact Nat.succ_pos _

namespace Inv

variable {callback : ι → Bool} {state : State ι κ} {list : List ι} (H : Inv callback state list)
include H

theorem waived_of_not_notified (h : ¬ (state.active i && callback i) = true) :
    Waived callback state i := by
  cases hact : state.active i with
  | false => exact H.active i hact
  | true =>
  rw [hact, Bool.true_and] at h
  exact .inr (Bool.eq_false_iff.2 h)

variable [DecidableEq ι]

theorem addCall (i : ι) :
    Inv callback { state with calls := update state.calls i (state.calls i + 1) } list where
  __ := H
  covered j hj := by
    refine (H.covered j hj).imp_right (Or.imp_left fun h => ?_)
    exact (forall_update_iff state.calls fun j calls => 0 < state.calls j → 0 < calls).2
      ⟨fun _ => Nat.succ_pos _, fun _ _ => id⟩ j h

theorem deactivate {i : ι} (hi : Waived callback state i) :
    Inv callback { state with active := update state.active i false } list where
  __ := H
  active := (forall_update_iff _ fun j active => active = false → Waived callback state j).2
    ⟨fun _ => hi, fun j _ => H.active j⟩

theorem retire (i : ι) : Inv callback { state with retired := update state.retired i true } list := by
  have hwaived (j : ι) (h : Waived callback state j) :
      Waived callback { state with retired := update state.retired i true } j := by
    refine h.imp_left ?_
    exact (forall_update_iff state.retired fun j retired => state.retired j = true → retired = true).2
      ⟨fun _ => rfl, fun _ _ => id⟩ j
  exact { H with
    active := fun j hj => hwaived j (H.active j hj)
    register := fun j hj => hwaived j (H.register j hj)
    cancel := fun k j hj => hwaived j (H.cancel k j hj)
    covered := fun j hj => (H.covered j hj).imp_left (hwaived j) }

theorem setNext (h : state.registering i = .loaded head) :
    Inv callback { state with next := update state.next i head } list where
  __ := H
  linked := by
    refine H.linked.update_of_notMem (fun hi => ?_) head
    have hpublished := (H.published i).1 hi
    rw [h] at hpublished
    exact hpublished
  next_eq := (forall_update_iff _ fun j next => ∀ head, state.registering j = .linked head →
    next = head).2 ⟨fun _ h' => absurd (h.symm.trans h') nofun, fun j _ => H.next_eq j⟩

theorem setRegistering (hpublished : (state.registering i).Published ↔ pc.Published)
    (hlinked : ∀ head, pc = .linked head → state.next i = head)
    (hwaived : pc = .deactivating → Waived callback state i)
    (hcovered : (state.registering i).Owing → Waived callback state i ∨ 0 < state.calls i ∨
      pc.Owing ∨ state.cancelled = false) :
    Inv callback { state with registering := update state.registering i pc } list where
  __ := H
  published := (forall_update_iff _ fun j (pc : RegisterPc ι) => j ∈ list ↔ pc.Published).2
    ⟨(H.published i).trans hpublished, fun j _ => H.published j⟩
  next_eq := (forall_update_iff _ fun j (pc : RegisterPc ι) =>
    ∀ head, pc = .linked head → state.next j = head).2 ⟨hlinked, fun j _ => H.next_eq j⟩
  register := (forall_update_iff _ fun j (pc : RegisterPc ι) =>
    pc = .deactivating → Waived callback state j).2 ⟨hwaived, fun j _ => H.register j⟩
  covered := (forall_update_iff _ fun j (pc : RegisterPc ι) => j ∈ list →
    Waived callback state j ∨ 0 < state.calls j ∨ pc.Owing ∨ state.cancelled = false ∨
      ∃ k, (state.cancelling k).Ahead list j).2 ⟨fun hi => by
    have h := H.covered i hi
    unfold Covered at h
    tauto, fun j _ => H.covered j⟩

/-- The registration becomes the head of the list. -/
theorem push {i : ι} (h : state.registering i = .linked state.callbacks) :
    Inv callback { state with
      callbacks := some i, registering := update state.registering i .pushed } (i :: list) := by
  have hi : i ∉ list := fun hi => by
    have hpublished := (H.published i).1 hi
    rw [h] at hpublished
    exact hpublished
  have hahead (pc : CancelPc ι) (j : ι) (h : pc.Ahead list j) : pc.Ahead (i :: list) j := by
    cases pc with
    | exchanged => trivial
    | idle | finished => exact h.elim
    | walking | calling | deactivating | following =>
    obtain ⟨path, hpath, h⟩ := h
    exact ⟨path, hpath.trans (List.suffix_cons ..), h⟩
  exact { H with
    linked := ⟨rfl, (H.next_eq i _ h).symm ▸ H.linked⟩
    nodup := List.nodup_cons.2 ⟨hi, H.nodup⟩
    published := (forall_update_iff _ fun j (pc : RegisterPc ι) => j ∈ i :: list ↔ pc.Published).2
      ⟨iff_of_true List.mem_cons_self trivial, fun j hne =>
        (List.mem_cons.trans (or_iff_right hne)).trans (H.published j)⟩
    next_eq := (forall_update_iff _ fun j (pc : RegisterPc ι) =>
      ∀ head, pc = .linked head → state.next j = head).2 ⟨nofun, fun j _ => H.next_eq j⟩
    register := (forall_update_iff _ fun j (pc : RegisterPc ι) =>
      pc = .deactivating → Waived callback state j).2 ⟨nofun, fun j _ => H.register j⟩
    covered := (forall_update_iff _ fun j (pc : RegisterPc ι) => j ∈ i :: list →
      Waived callback state j ∨ 0 < state.calls j ∨ pc.Owing ∨ state.cancelled = false ∨
        ∃ k, (state.cancelling k).Ahead (i :: list) j).2
      ⟨fun _ => .inr (.inr (.inl trivial)), fun j hne hj =>
        (H.covered j (List.mem_of_ne_of_mem hne hj)).imp_right (Or.imp_right (Or.imp_right
          (Or.imp_right fun ⟨k, hk⟩ => ⟨k, hahead _ j hk⟩)))⟩ }

theorem register_step [DecidableEq κ]
    (h : RegisterStep callback state i after) : ∃ list', Inv callback after list' := by
  cases h with
  | load h => exact ⟨list, H.setRegistering (h ▸ Iff.rfl) nofun nofun (h ▸ nofun)⟩
  | @link head h =>
    refine ⟨list, (H.setNext h).setRegistering (h ▸ Iff.rfl) ?_ nofun (h ▸ nofun)⟩
    rintro _ ⟨⟩
    exact update_self i head state.next
  | push h hhead => exact ⟨_, H.push (hhead ▸ h)⟩
  | retry h => exact ⟨list, H.setRegistering (h ▸ Iff.rfl) nofun nofun (h ▸ nofun)⟩
  | check h =>
    refine ⟨list, ?_⟩
    split
    · exact H.setRegistering (h ▸ Iff.rfl) nofun nofun fun _ => .inr (.inr (.inl trivial))
    next hnot =>
    exact H.setRegistering (h ▸ Iff.rfl) nofun nofun fun _ =>
      .inr (.inr (.inr (Bool.eq_false_iff.2 hnot)))
  | notify h =>
    refine ⟨list, ?_⟩
    split
    · exact H.setRegistering (h ▸ Iff.rfl) nofun nofun fun _ => .inr (.inr (.inl trivial))
    next hnot =>
    have hwaived := H.waived_of_not_notified hnot
    exact H.setRegistering (h ▸ Iff.rfl) nofun (fun _ => hwaived) fun _ => .inl hwaived
  | call h =>
    exact ⟨list, (H.addCall i).setRegistering (h ▸ Iff.rfl) nofun nofun
      fun _ => .inr (.inl (called_pos state i))⟩
  | deactivate h =>
    have hwaived := H.register i h
    exact ⟨list, (H.deactivate hwaived).setRegistering (h ▸ Iff.rfl) nofun nofun
      fun _ => .inl hwaived⟩
  | retire h => exact ⟨list, (H.retire i).deactivate (.inl (update_self ..))⟩

omit [DecidableEq ι] in
theorem setCancelling [DecidableEq κ] (hcancelled : state.cancelled = true)
    (hwaived : ∀ i, pc = .deactivating i → Waived callback state i)
    (hahead : ∀ i ∈ list, (state.cancelling k).Ahead list i →
      Waived callback state i ∨ 0 < state.calls i ∨ pc.Ahead list i) :
    Inv callback { state with cancelling := update state.cancelling k pc } list where
  __ := H
  cancel := (forall_update_iff _ fun _ (pc : CancelPc ι) =>
    ∀ i, pc = .deactivating i → Waived callback state i).2 ⟨hwaived, fun j _ => H.cancel j⟩
  cancelled _ _ := hcancelled
  covered i hi := by
    refine (H.covered i hi).elim .inl fun h => h.elim (.inr ∘ .inl) fun h => ?_
    rcases h with h | h | ⟨j, hj⟩
    · exact .inr (.inr (.inl h))
    · exact .inr (.inr (.inr (.inl h)))
    have hother (h : pc.Ahead list i ∨ ∃ j ≠ k, (state.cancelling j).Ahead list i) :=
      (exists_update_iff state.cancelling fun _ (pc : CancelPc ι) => pc.Ahead list i).2 h
    rcases eq_or_ne j k with rfl | hne
    · exact (hahead i hi hj).imp_right (Or.imp_right fun h => .inr (.inr (hother (.inl h))))
    exact .inr (.inr (.inr (.inr (hother (.inr ⟨j, hne, hj⟩)))))

theorem cancel_step [DecidableEq κ]
    (h : CancelStep callback state k after) : Inv callback after list := by
  have hstarted {pc : CancelPc ι} (h : state.cancelling k = pc) (hne : pc ≠ .idle) :
      state.cancelled = true := H.cancelled k (h ▸ hne)
  cases h with
  | exchange h =>
    split
    · next hcancelled =>
      have H' : Inv callback { state with cancelled := true } list := by
        rw [← hcancelled]
        exact H
      refine H'.setCancelling rfl nofun fun i _ hi => ?_
      rw [h] at hi
      exact hi.elim
    have hahead (i : ι) : (update state.cancelling k .exchanged k).Ahead list i := by
      rw [update_self]
      trivial
    exact { H with
      cancel := (forall_update_iff _ fun _ (pc : CancelPc ι) =>
        ∀ i, pc = .deactivating i → Waived callback state i).2 ⟨nofun, fun j _ => H.cancel j⟩
      cancelled := fun _ _ => rfl
      covered := fun i _ => .inr (.inr (.inr (.inr ⟨k, hahead i⟩))) }
  | load h =>
    refine H.setCancelling (hstarted h nofun) nofun fun i hi _ => .inr (.inr ?_)
    exact ⟨list, List.suffix_refl _, H.linked.head_eq, hi⟩
  | stop h =>
    refine H.setCancelling (hstarted h nofun) nofun fun i hi hahead => ?_
    rw [h] at hahead
    obtain ⟨path, -, hnil, hi⟩ := hahead
    rw [List.head?_eq_none_iff.1 hnil] at hi
    cases hi
  | @notify i h =>
    split
    · refine H.setCancelling (hstarted h nofun) nofun fun j hj hahead => .inr (.inr ?_)
      rw [h] at hahead
      obtain ⟨path, hpath, hhead, hj⟩ := hahead
      obtain ⟨path, rfl⟩ := List.head?_eq_some_iff.1 hhead
      exact ⟨path, hpath, hj⟩
    next hnot =>
    have hwaived := H.waived_of_not_notified hnot
    refine H.setCancelling (hstarted h nofun) (fun j hj => ?_) fun j hj hahead => ?_
    · cases hj
      exact hwaived
    rw [h] at hahead
    obtain ⟨path, hpath, hhead, hj⟩ := hahead
    obtain ⟨path, rfl⟩ := List.head?_eq_some_iff.1 hhead
    rcases List.mem_cons.1 hj with rfl | hj
    · exact .inl hwaived
    exact .inr (.inr ⟨path, hpath, hj⟩)
  | @call i h =>
    refine (H.addCall i).setCancelling (hstarted h nofun) nofun fun j hj hahead => .inr ?_
    rw [h] at hahead
    obtain ⟨path, hpath, hj⟩ := hahead
    rcases List.mem_cons.1 hj with rfl | hj
    · exact .inl (called_pos state j)
    exact .inr ⟨path, hpath, hj⟩
  | @deactivate i h =>
    refine (H.deactivate (H.cancel k i h)).setCancelling (hstarted h nofun) nofun
      fun j hj hahead => .inr (.inr ?_)
    rw [h] at hahead
    exact hahead
  | @follow i h =>
  refine H.setCancelling (hstarted h nofun) nofun fun j hj hahead => .inr (.inr ?_)
  rw [h] at hahead
  obtain ⟨path, hpath, hj⟩ := hahead
  exact ⟨path, (List.suffix_cons ..).trans hpath, (H.linked.of_suffix hpath).2.head_eq, hj⟩

end Inv

/-! ## Every run -/

section

variable [DecidableEq ι] [DecidableEq κ] {callback : ι → Bool} {state : State ι κ}

theorem Reachable.inv (h : Reachable callback state) : ∃ list, Inv callback state list := by
  refine @Lib.invariant_of_reaches _ _ (fun state => ∃ list, Inv callback state list) _ _ ?_
    ⟨[], Inv.start callback⟩ h
  rintro before after ⟨list, H⟩ (⟨i, hstep⟩ | ⟨k, hstep⟩)
  · exact H.register_step hstep
  exact ⟨list, H.cancel_step hstep⟩

/-- Where all calls have returned and one of them was of `cancel`, every registration that has a
function and was not deactivated by its owner has been notified, and the list holds each once. -/
theorem no_cancellation_lost (h : Reachable callback state)
    (hstarted : ∃ k, state.cancelling k ≠ .idle)
    (hcancels : ∀ k, state.cancelling k = .idle ∨ state.cancelling k = .finished)
    (hregisters : ∀ i, state.registering i = .idle ∨ state.registering i = .finished) :
    (∀ i, state.registering i = .finished → callback i = true → state.retired i = false →
      0 < state.calls i) ∧
    ∃ list, Linked state.next state.callbacks list ∧ list.Nodup ∧
      ∀ i, i ∈ list ↔ state.registering i = .finished := by
  obtain ⟨list, H⟩ := h.inv
  have hlist (i : ι) : i ∈ list ↔ state.registering i = .finished := by
    rw [H.published i]
    rcases hregisters i with h | h
    · rw [h]
      exact iff_of_false id nofun
    rw [h]
    exact iff_of_true trivial rfl
  refine ⟨fun i hi hcallback hretired => ?_, list, H.linked, H.nodup, hlist⟩
  rcases H.covered i ((hlist i).2 hi) with (h | h) | h | h | h | ⟨k, hk⟩
  · exact absurd h (ne_true_of_eq_false hretired)
  · exact absurd hcallback (ne_true_of_eq_false h)
  · exact h
  · rw [hi] at h
    exact h.elim
  · obtain ⟨k, hk⟩ := hstarted
    exact absurd (H.cancelled k hk) (ne_true_of_eq_false h)
  rcases hcancels k with h | h
  · rw [h] at hk
    exact hk.elim
  rw [h] at hk
  exact hk.elim

/-- One registration before the call of `cancel`, and one behind it. -/
theorem no_cancellation_lost_two : ∃ state : State Bool Unit,
    Reachable (fun _ => true) state ∧ 0 < state.calls false ∧ 0 < state.calls true := by
  have hfirst := (Relation.ReflTransGen.refl (r := Step fun _ => true)
    (a := ({} : State Bool Unit))).tail (.register false (.load rfl))
    |>.tail (.register false (.link rfl)) |>.tail (.register false (.push rfl rfl))
    |>.tail (.register false (.check rfl))
  have hcancel := hfirst.tail (.cancel () (.exchange rfl)) |>.tail (.cancel () (.load rfl))
    |>.tail (.cancel () (.notify rfl)) |>.tail (.cancel () (.call rfl))
    |>.tail (.cancel () (.follow rfl)) |>.tail (.cancel () (.stop rfl))
  have hsecond := hcancel.tail (.register true (.load rfl)) |>.tail (.register true (.link rfl))
    |>.tail (.register true (.push rfl rfl)) |>.tail (.register true (.check rfl))
    |>.tail (.register true (.notify rfl)) |>.tail (.register true (.call rfl))
  have hcalled := (no_cancellation_lost hsecond ⟨(), nofun⟩ (fun _ => .inr rfl)
    (Bool.rec (.inr rfl) (.inr rfl))).1
  exact ⟨_, hsecond, hcalled false rfl rfl rfl, hcalled true rfl rfl rfl⟩

end

end Galay.Rpc.Cancellation
