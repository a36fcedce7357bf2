import Galay.Lib.Run
import Galay.Kernel.WakeCoordinator

/-!
# No wake-up of the event loop is lost

The counter is raised before an entry is in a queue, so the loop polls only while every queue is
empty, and it has said before that it sleeps. A call whose entry comes later sees that, and leaves
`m_wakeup_pending` set; the loop clears it only when it is awake.
-/

namespace Galay.Kernel.Wake

open Function (update update_of_ne update_self)
open List
open Relation

variable {ι : Type*}

/-! ## The counter -/

/-- The calls that have raised the counter and have no entry. -/
def CallPc.Counted : CallPc → Prop
  | .counted .. | .rejected => True
  | _ => False

/-- What the loop has counted without an entry, or taken and not yet subtracted. -/
def LoopPc.unsettled {α : Type*} : LoopPc α → Nat
  | .dequeued batch => batch.length
  | .selected _ resumed => resumed
  | .injecting _ | .rejected _ => 1
  | _ => 0

/-- The list of the calls that have raised the counter and have no entry. -/
structure Active (calls : ι → CallPc) (active : List ι) : Prop where
  nodup : active.Nodup
  mem_iff : ∀ i, i ∈ active ↔ (calls i).Counted

section Active

variable [DecidableEq ι] {calls : ι → CallPc} {active : List ι} {i : ι} {pc : CallPc}

section

variable (h : Active calls active)
include h

theorem Active.add (hnot : ¬ (calls i).Counted) (hpc : pc.Counted) :
    Active (update calls i pc) (i :: active) where
  nodup := List.nodup_cons.2 ⟨fun hmem => hnot ((h.mem_iff i).1 hmem), h.nodup⟩
  mem_iff j := by
    by_cases hj : j = i
    · subst hj
      rw [update_self]
      exact ⟨fun _ => hpc, fun _ => mem_cons_self⟩
    rw [update_of_ne hj, mem_cons, h.mem_iff]
    exact ⟨fun hmem => hmem.resolve_left hj, .inr⟩

theorem Active.remove (hpc : ¬ pc.Counted) :
    Active (update calls i pc) (active.erase i) where
  nodup := h.nodup.erase i
  mem_iff j := by
    rw [h.nodup.mem_erase_iff]
    by_cases hj : j = i
    · subst hj
      rw [update_self]
      exact ⟨fun hmem => absurd rfl hmem.1, fun hmem => absurd hmem hpc⟩
    rw [update_of_ne hj, h.mem_iff]
    exact ⟨And.right, fun hmem => ⟨hj, hmem⟩⟩

theorem Active.keep (hpc : (calls i).Counted ↔ pc.Counted) :
    Active (update calls i pc) active where
  nodup := h.nodup
  mem_iff j := by
    rw [h.mem_iff]
    by_cases hj : j = i
    · subst hj
      rw [update_self]
      exact hpc
    rw [update_of_ne hj]

theorem Active.length_erase (hpc : (calls i).Counted) :
    (active.erase i).length + 1 = active.length := by
  have hmem := (h.mem_iff i).2 hpc
  have hpos := length_pos_of_mem hmem
  rw [length_erase_of_mem hmem]
  omega

end

end Active

/-- The counter is the number of entries, those on the way counted. -/
def Settled (state : State ι) : Prop :=
  ∃ active, Active state.calls active ∧
    state.injectedOutstanding = state.injectQueue.length + state.resumeQueue.length +
      state.resumeLocal.length + active.length + state.loop.unsettled

/-! ## The invariant -/

/-- A call whose entry waits while the loop polls will wake the loop, or has left the flag set. -/
def CallPc.Covered (wakeupPending : Bool) : CallPc → Prop
  | .pushed _ | .waking => True
  | .notifying | .finished => wakeupPending = true
  | _ => False

structure Inv (state : State ι) : Prop where
  settled : Settled state
  /-- The flag announces a wake-up until the loop is about to clear it. -/
  pending : state.coordinator.wakeupPending = true →
    0 < state.eventFd ∨ (∃ i, state.calls i = .notifying) ∨ state.loop = .reading ∨
      state.loop = .signalRead
  sleeping : state.loop = .checking ∨ state.loop = .polling → state.coordinator.sleeping = true
  covered : state.loop = .polling → ∀ entry ∈ state.injectQueue ++ state.resumeQueue,
    ∃ i, entry = some i ∧ (state.calls i).Covered state.coordinator.wakeupPending

theorem Inv.start : Inv ({} : State ι) where
  settled := ⟨[], ⟨nodup_nil, fun i => ⟨nofun, nofun⟩⟩, rfl⟩
  pending := nofun
  sleeping := by rintro (h | h) <;> cases h
  covered := nofun

/-! ## Steps of the calls -/

section Calls

variable [DecidableEq ι] {state next : State ι} {i : ι}

theorem Settled.call (h : Settled state) (hstep : CallStep state i next) : Settled next := by
  obtain ⟨active, hact, hcount⟩ := h
  cases hstep with
  | count queue hpc =>
    refine ⟨i :: active, hact.add (by rw [hpc]; exact nofun) trivial, ?_⟩
    simp only [length_cons]
    omega
  | @push queue wasEmpty hpc =>
    have herase := hact.length_erase (show (state.calls i).Counted by rw [hpc]; trivial)
    refine ⟨active.erase i, hact.remove nofun, ?_⟩
    cases queue with
    | inject =>
      simp only [State.push, length_append, length_singleton]
      omega
    | resume =>
    simp only [State.push, length_cons]
    omega
  | reject hpc => exact ⟨active, hact.keep (by rw [hpc]; exact Iff.rfl), hcount⟩
  | uncount hpc =>
    have herase := hact.length_erase (show (state.calls i).Counted by rw [hpc]; trivial)
    refine ⟨active.erase i, hact.remove nofun, ?_⟩
    simp only
    omega
  | load hpc =>
    refine ⟨active, hact.keep ?_, hcount⟩
    rw [hpc, State.afterLoad]
    split <;> exact Iff.rfl
  | exchange hpc =>
    refine ⟨active, hact.keep ?_, hcount⟩
    rw [hpc, State.afterExchange]
    split <;> exact Iff.rfl
  | notify hpc => exact ⟨active, hact.keep (by rw [hpc]; exact Iff.rfl), hcount⟩

section

variable (hstep : CallStep state i next)
include hstep

/-- A call does not move the loop, and the flag is only set. -/
theorem CallStep.loop_eq :
    next.loop = state.loop ∧ next.coordinator.sleeping = state.coordinator.sleeping ∧
      (state.coordinator.wakeupPending = true → next.coordinator.wakeupPending = true) := by
  cases hstep with
  | @push queue wasEmpty hpc => cases queue <;> exact ⟨rfl, rfl, id⟩
  | exchange hpc => exact ⟨rfl, rfl, fun _ => rfl⟩
  | _ => exact ⟨rfl, rfl, id⟩

theorem CallStep.calls_of_ne (hj : j ≠ i) : next.calls j = state.calls j := by
  cases hstep <;> exact update_of_ne hj ..

theorem CallStep.mem_queues (hmem : entry ∈ next.injectQueue ++ next.resumeQueue) :
    entry ∈ state.injectQueue ++ state.resumeQueue ∨
      entry = some i ∧ ∃ wasEmpty, next.calls i = .pushed wasEmpty := by
  cases hstep with
  | @push queue wasEmpty hpc =>
    have hnew : ∃ wasEmpty', update state.calls i (.pushed wasEmpty) i =
        .pushed wasEmpty' := ⟨wasEmpty, update_self ..⟩
    cases queue with
    | inject =>
      simp only [State.push, mem_append, mem_singleton] at hmem
      rw [mem_append]
      rcases hmem with (hmem | hmem) | hmem
      · exact .inl (.inl hmem)
      · exact .inr ⟨hmem, hnew⟩
      exact .inl (.inr hmem)
    | resume =>
    simp only [State.push, mem_append, mem_cons] at hmem
    rw [mem_append]
    rcases hmem with hmem | hmem | hmem
    · exact .inl (.inl hmem)
    · exact .inr ⟨hmem, hnew⟩
    exact .inl (.inr hmem)
  | _ => exact .inl hmem

theorem CallStep.covered (hsleeping : state.coordinator.sleeping = true)
    (h : (state.calls i).Covered state.coordinator.wakeupPending) :
    (next.calls i).Covered next.coordinator.wakeupPending := by
  cases hstep with
  | count queue hpc => rw [hpc] at h; exact h.elim
  | push hpc => rw [hpc] at h; exact h.elim
  | reject hpc => rw [hpc] at h; exact h.elim
  | uncount hpc => rw [hpc] at h; exact h.elim
  | load hpc =>
    simp only [update_self, State.afterLoad, hsleeping, Bool.or_true, if_true]
    trivial
  | exchange hpc =>
    simp only [update_self, State.afterExchange]
    split <;> rfl
  | notify hpc =>
  rw [hpc] at h
  simp only [update_self]
  exact h

end

theorem CallPc.Covered.mono {pc : CallPc} {after : Bool} (h : pc.Covered before)
    (hmono : before = true → after = true) : pc.Covered after := by
  cases pc with
  | notifying => exact hmono h
  | finished => exact hmono h
  | _ => exact h

theorem Inv.pending_call (h : Inv state) (hstep : CallStep state i next)
    (hpend : next.coordinator.wakeupPending = true) :
    0 < next.eventFd ∨ (∃ i, next.calls i = .notifying) ∨ next.loop = .reading ∨
      next.loop = .signalRead := by
  have hne : ∀ j, j ≠ i → next.calls j = state.calls j := fun j => hstep.calls_of_ne
  -- A call that is about to write goes on being so, unless the step is its write.
  have hkeep : state.calls i ≠ .notifying → next.eventFd = state.eventFd →
      state.coordinator.wakeupPending = true → 0 < next.eventFd ∨
        (∃ i, next.calls i = .notifying) ∨ next.loop = .reading ∨ next.loop = .signalRead := by
    intro hpc hfd hbefore
    rw [hstep.loop_eq.1, hfd]
    rcases h.pending hbefore with hfd | ⟨j, hj⟩ | hloop
    · exact .inl hfd
    · refine .inr (.inl ⟨j, ?_⟩)
      rw [hne j (fun heq => hpc (heq ▸ hj)), hj]
    exact .inr (.inr hloop)
  cases hstep with
  | count queue hpc => exact hkeep (by rw [hpc]; exact nofun) rfl hpend
  | @push queue wasEmpty hpc =>
    cases queue <;> exact hkeep (by rw [hpc]; exact nofun) rfl hpend
  | reject hpc => exact hkeep (by rw [hpc]; exact nofun) rfl hpend
  | uncount hpc => exact hkeep (by rw [hpc]; exact nofun) rfl hpend
  | load hpc => exact hkeep (by rw [hpc]; exact nofun) rfl hpend
  | exchange hpc =>
    cases hbefore : state.coordinator.wakeupPending with
    | true => exact hkeep (by rw [hpc]; exact nofun) rfl hbefore
    | false =>
    refine .inr (.inl ⟨i, ?_⟩)
    simp only [update_self, State.afterExchange, hbefore, Bool.false_eq_true, if_false]
  | notify hpc => exact .inl (Nat.succ_pos _)

theorem Inv.call (h : Inv state) (hstep : CallStep state i next) : Inv next := by
  obtain ⟨hloop, hsleeping, hmono⟩ := hstep.loop_eq
  refine ⟨h.settled.call hstep, h.pending_call hstep, ?_, ?_⟩
  · intro hplace
    rw [hsleeping]
    exact h.sleeping (hloop ▸ hplace)
  intro hpolling entry hmem
  have hbefore : state.loop = .polling := hloop ▸ hpolling
  rcases hstep.mem_queues hmem with hold | ⟨rfl, wasEmpty, hpc⟩
  · obtain ⟨j, rfl, hcovered⟩ := h.covered hbefore entry hold
    refine ⟨j, rfl, ?_⟩
    by_cases hj : j = i
    · subst hj
      exact hstep.covered (h.sleeping (.inr hbefore)) hcovered
    rw [hstep.calls_of_ne hj]
    exact hcovered.mono hmono
  refine ⟨i, rfl, ?_⟩
  rw [hpc]
  trivial

end Calls

/-! ## Steps of the loop -/

variable {state next : State ι}

theorem Settled.loop (h : Settled state) (hstep : LoopStep state next) : Settled next := by
  obtain ⟨active, hact, hcount⟩ := h
  refine ⟨active, ?_⟩
  cases hstep with
  | scheduleLocal hloop => exact ⟨hact, hcount⟩
  | popNext hloop hwork => exact ⟨hact, hcount⟩
  | @enqueue place hloop =>
    refine ⟨hact, ?_⟩
    rw [hloop] at hcount
    simp only [LoopPc.unsettled, State.push, length_append, length_singleton] at hcount ⊢
    omega
  | @dequeue batch rest hloop htaken =>
    have hlen := htaken.length_eq
    rw [length_append] at hlen
    rw [hloop] at hcount
    refine ⟨hact, ?_⟩
    simp only [LoopPc.unsettled] at hcount ⊢
    omega
  | @takeAll drained hloop hlocal =>
    rw [hloop, hlocal] at hcount
    refine ⟨hact, ?_⟩
    simp only [LoopPc.unsettled, length_nil, length_reverse] at hcount ⊢
    omega
  | @select drained resumed hloop hresumed =>
    rw [hloop] at hcount
    refine ⟨hact, ?_⟩
    simp only [LoopPc.unsettled, length_drop] at hcount ⊢
    omega
  | fallback hloop =>
    rw [hloop] at hcount
    exact ⟨hact, congrArg (· + 1) hcount⟩
  | uncount hloop | transfer hloop | settle hloop =>
    rw [hloop] at hcount
    refine ⟨hact, ?_⟩
    simp only [LoopPc.unsettled] at hcount ⊢
    omega
  | read hloop hfd => exact ⟨hact, hcount⟩
  | reject hloop | full hloop | nothing hloop | cancel hloop | sleep hloop | wait hloop
  | handle hloop | cancelRead hloop | leave hloop | awake hloop =>
    rw [hloop] at hcount
    exact ⟨hact, hcount⟩
  | keepLocal hloop hguard | collect hloop hguard | stay hloop hguard | poll hloop hguard
  | signal hloop hguard | readEnd hloop hguard =>
  rw [hloop] at hcount
  exact ⟨hact, hcount⟩

theorem LoopStep.polling (hstep : LoopStep state next) (h : next.loop = .polling) :
    state.loop = .checking ∧ state.injectedOutstanding = 0 ∧
      next.injectQueue = state.injectQueue ∧ next.resumeQueue = state.resumeQueue := by
  cases hstep with
  | @poll hloop hidle =>
    simp only [State.hasPendingWork, Bool.or_eq_false_iff, decide_eq_false_iff_not] at hidle
    exact ⟨hloop, by omega, rfl, rfl⟩
  | scheduleLocal hloop | popNext hloop | read hloop =>
    have hpolling : state.loop = .polling := h
    rw [hloop] at hpolling
    cases hpolling
  | _ => cases h

theorem LoopStep.sleeping (hstep : LoopStep state next) (h : next.loop = .checking) :
    next.coordinator.sleeping = true := by
  cases hstep with
  | sleep hloop => rfl
  | scheduleLocal hloop | popNext hloop | read hloop =>
    have hchecking : state.loop = .checking := h
    rw [hloop] at hchecking
    cases hchecking
  | _ => cases h

theorem LoopStep.coordinator_eq (hstep : LoopStep state next) (h : next.loop = .polling) :
    next.coordinator = state.coordinator := by
  cases hstep with
  | collect | cancel | sleep | cancelRead | awake => cases h
  | _ => rfl

theorem Inv.pending_loop (h : Inv state) (hstep : LoopStep state next)
    (hafter : next.coordinator.wakeupPending = true) :
    0 < next.eventFd ∨ (∃ i, next.calls i = .notifying) ∨ next.loop = .reading ∨
      next.loop = .signalRead := by
  -- The loop reads the eventfd only on the way to clearing the flag.
  have hkeep : ∀ pc, state.loop = pc → pc ≠ .reading → pc ≠ .signalRead →
      state.coordinator.wakeupPending = true →
        0 < state.eventFd ∨ (∃ i, state.calls i = .notifying) ∨ next.loop = .reading ∨
          next.loop = .signalRead := by
    rintro pc rfl hreading hread hbefore
    rcases h.pending hbefore with hfd | hcall | hloop | hloop
    · exact .inl hfd
    · exact .inr (.inl hcall)
    · exact absurd hloop hreading
    exact absurd hloop hread
  cases hstep with
  | cancel hloop | cancelRead hloop => cases hafter
  | read hloop hfd => exact .inr (.inr (.inl hloop))
  | readEnd hloop hfd => exact .inr (.inr (.inr rfl))
  | scheduleLocal hloop | fallback hloop | enqueue hloop | reject hloop | uncount hloop
  | transfer hloop | settle hloop | full hloop | nothing hloop | sleep hloop | wait hloop
  | handle hloop | leave hloop | awake hloop => exact hkeep _ hloop nofun nofun hafter
  | popNext hloop hguard | dequeue hloop hguard | takeAll hloop hguard | keepLocal hloop hguard
  | collect hloop hguard | stay hloop hguard | poll hloop hguard | signal hloop hguard =>
    exact hkeep _ hloop nofun nofun hafter
  | select resumed hloop hresumed => exact hkeep _ hloop nofun nofun hafter

theorem Inv.loop (h : Inv state) (hstep : LoopStep state next) : Inv next := by
  refine ⟨h.settled.loop hstep, h.pending_loop hstep, ?_, ?_⟩
  · rintro (hchecking | hpolling)
    · exact hstep.sleeping hchecking
    rw [hstep.coordinator_eq hpolling]
    exact h.sleeping (.inl (hstep.polling hpolling).1)
  intro hpolling entry hmem
  obtain ⟨-, hnone, hinject, hresume⟩ := hstep.polling hpolling
  obtain ⟨active, -, hcount⟩ := h.settled
  have hqueues : (state.injectQueue ++ state.resumeQueue).length = 0 := by
    rw [length_append]
    omega
  rw [hinject, hresume, List.length_eq_zero_iff.1 hqueues] at hmem
  cases hmem

/-! ## Every run -/

variable [DecidableEq ι]

theorem Reachable.inv (h : Reachable state) : Inv state := by
  refine Lib.invariant_of_reaches ?_ Inv.start h
  rintro before after hinv (⟨i, hstep⟩ | hstep)
  · exact hinv.call hstep
  exact hinv.loop hstep

/-- While the loop is blocked and the eventfd is not readable, every waiting entry is one of a call
that has not finished, or another call is about to write the eventfd. -/
theorem no_lost_wake (h : Reachable state) (hblocked : state.loop = .polling)
    (hfd : state.eventFd = 0) :
    ∀ entry ∈ state.injectQueue ++ state.resumeQueue, ∃ i, entry = some i ∧
      (state.calls i ≠ .finished ∨ ∃ j, j ≠ i ∧ state.calls j = .notifying) := by
  intro entry hmem
  obtain ⟨i, rfl, hcovered⟩ := h.inv.covered hblocked entry hmem
  refine ⟨i, rfl, ?_⟩
  by_cases hfinished : state.calls i = .finished
  case neg => exact .inl hfinished
  right
  rw [hfinished] at hcovered
  rcases h.inv.pending hcovered with hpos | ⟨j, hj⟩ | hloop | hloop
  · omega
  · refine ⟨j, ?_, hj⟩
    rintro rfl
    rw [hfinished] at hj
    cases hj
  · rw [hblocked] at hloop
    cases hloop
  rw [hblocked] at hloop
  cases hloop

/-- Two calls while the loop polls: the second has finished, and the first is about to write. -/
theorem no_lost_wake_coalesced : ∃ state : State Bool, Reachable state ∧
    state.loop = .polling ∧ state.eventFd = 0 ∧ state.injectQueue = [some false, some true] ∧
    state.calls true = .finished ∧
    ∀ entry ∈ state.injectQueue ++ state.resumeQueue, ∃ i, entry = some i ∧
      (state.calls i ≠ .finished ∨ ∃ j, j ≠ i ∧ state.calls j = .notifying) := by
  have hpolling := (Relation.ReflTransGen.refl (r := Step) (a := ({} : State Bool))).tail
    (.loop (.sleep rfl)) |>.tail (.loop (.poll rfl rfl))
  have hfirst := hpolling.tail (.call false (.count .inject rfl)) |>.tail (.call false (.push rfl))
    |>.tail (.call false (.load rfl)) |>.tail (.call false (.exchange rfl))
  have hsecond := hfirst.tail (.call true (.count .inject rfl)) |>.tail (.call true (.push rfl))
    |>.tail (.call true (.load rfl)) |>.tail (.call true (.exchange rfl))
  exact ⟨_, hsecond, rfl, rfl, rfl, rfl, no_lost_wake hsecond rfl rfl⟩

end Galay.Kernel.Wake
