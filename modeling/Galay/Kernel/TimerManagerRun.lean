import Galay.Kernel.TimerConservation

/-!
# Runs of the timer managers
-/

namespace Galay.Kernel.TimerWheels

open List

variable [DecidableEq ι] {manager : Manager} {wheels : TimerWheels ι} {now : Nat} {timer : Timer ι}
  {pushed : List (Timer ι)}

/-! ## Empty wheels -/

theorem Held.entries_eq_nil (h : Held manager pushed now rest wheels) (hempty : wheels.size = 0) :
    wheels.entries = [] :=
  eq_nil_of_length_eq_zero (h.size.symm.trans hempty)

theorem Held.reset (h : Held manager pushed now rest wheels) (hempty : wheels.size = 0) :
    Held manager pushed now rest (wheels.reset now) where
  __ := h
  accounted := h.accounted.congr rfl fun _ => rfl
  due entry hmem := by
    have hents : (wheels.reset now).entries = [] := h.entries_eq_nil hempty
    rw [hents] at hmem
    exact absurd hmem not_mem_nil
  started := Nat.le_refl now
  clock := by
    simp only [TimerWheels.reset]
    omega

/-! ## Timers that are added -/

theorem Held.handleTimeout (h : Held manager pushed now (timer :: rest) wheels) :
    Held manager pushed now rest (wheels.handleTimeout now timer) where
  __ := h
  accounted := h.accounted.congr rfl (tally_fire now wheels.size)
  inRange other hmem := h.inRange other (mem_cons_of_mem _ hmem)

theorem Held.place (h : Held manager pushed now (timer :: rest) wheels)
    (hticks : 0 < ticks) (hdelay : now + ticks * wheels.tickDuration ≤
      timer.expireTime + wheels.tickDuration) : Held manager pushed now rest
      { wheels.place timer ticks ((now - wheels.startTime) / wheels.tickDuration + ticks) with
        size := wheels.size + 1 } where
  __ := h
  accounted := h.accounted.congr rfl (tally_place _ _ _)
  due entry hmem := by
    rcases List.mem_append.1 hmem with hold | hnew
    · exact h.due entry hold
    rw [List.mem_singleton.1 hnew]
    have hlate : wheels.startTime + ((now - wheels.startTime) / wheels.tickDuration + ticks) *
        wheels.tickDuration ≤ timer.expireTime + wheels.tickDuration := by
      have hstarted := h.started
      have hdiv := Nat.div_mul_le_self (now - wheels.startTime) wheels.tickDuration
      rw [Nat.add_mul]
      omega
    exact due_of_delay hticks h.currentTick_le hlate (h.inRange timer mem_cons_self)
  size := by
    have hsize := h.size
    simp only [TimerWheels.place, length_append, length_singleton]
    omega
  inRange other hmem := h.inRange other (mem_cons_of_mem _ hmem)

theorem Held.addTimerToWheel (hids : (pushed.map (·.id)).Nodup)
    (h : Held manager pushed now (timer :: rest) wheels) :
    Held manager pushed now rest (ThreadSafeTimerManager.addTimerToWheel now
      ((now - wheels.startTime) / wheels.tickDuration) wheels timer) := by
  unfold ThreadSafeTimerManager.addTimerToWheel
  split
  · next hskip =>
    rw [Bool.or_eq_true] at hskip
    exact { h with
      accounted := h.accounted.skip hids hskip wheels.size
      inRange := fun other hmem => h.inRange other (mem_cons_of_mem _ hmem) }
  split
  · exact h.handleTimeout
  simp only
  split
  · exact h.handleTimeout
  next hlate hticks =>
  have hdiv := Nat.div_mul_le_self (timer.expireTime - now) wheels.tickDuration
  split
  · next hspan =>
    have hrange := h.inRange timer mem_cons_self
    rw [Nat.le_div_iff_mul_le wheels.tickDuration_pos] at hspan
    omega
  exact h.place (Nat.pos_of_ne_zero hticks) (by omega)

theorem addTimerToWheel_aligned (now tick : Nat) (wheels : TimerWheels ι) (timer : Timer ι) :
    Aligned wheels (ThreadSafeTimerManager.addTimerToWheel now tick wheels timer) := by
  unfold ThreadSafeTimerManager.addTimerToWheel
  simp only
  split
  · exact Aligned.refl wheels
  split
  · exact ⟨rfl, rfl, rfl, rfl, rfl, rfl⟩
  split
  · exact ⟨rfl, rfl, rfl, rfl, rfl, rfl⟩
  split <;> exact ⟨rfl, rfl, rfl, rfl, rfl, rfl⟩

theorem Held.ofPushed (h : Held manager pushed now [] wheels) (timer : Timer ι)
    (hrange : timer.expireTime < now + wheel5Span * wheels.tickDuration) :
    Held manager (timer :: pushed) now [timer] wheels where
  __ := h
  accounted := by
    have htally (other : Timer ι) : wheels.tally [timer] other =
        wheels.tally [] other + [timer].count other := by
      simp only [tally, count_nil]
      omega
    constructor
    · intro other
      have hle := h.accounted.le other
      rw [htally, count_singleton, count_cons]
      omega
    intro other hlive
    rw [htally, count_singleton, count_cons, h.accounted.eq other hlive]
  inRange other hmem := by
    rcases List.mem_cons.1 hmem with rfl | hmem
    · exact hrange
    exact h.inRange other hmem

/-! ## The calls -/

/-- The delay of a timer is in the range of the wheels: the managers round it differently. -/
def InRange (manager : Manager) (tickDuration now : Nat) (timer : Timer ι) : Prop :=
  match manager with
  | .timingWheel => (timer.expireTime - now + tickDuration - 1) / tickDuration < wheel5Span
  | .threadSafe => timer.expireTime - now < wheel5Span * tickDuration

omit [DecidableEq ι] in
theorem InRange.lt {tickDuration : Nat} (hpos : 0 < tickDuration)
    (h : InRange manager tickDuration now timer) :
    timer.expireTime < now + wheel5Span * tickDuration := by
  cases manager with
  | timingWheel =>
    have hlt : timer.expireTime - now + tickDuration - 1 < wheel5Span * tickDuration :=
      (Nat.div_lt_iff_lt_mul hpos).1 h
    omega
  | threadSafe =>
  have hlt : timer.expireTime - now < wheel5Span * tickDuration := h
  omega

theorem Held.timingWheelPush (h : Held .timingWheel pushed now [] wheels)
    (hrange : InRange .timingWheel wheels.tickDuration now timer) :
    Held .timingWheel (timer :: pushed) now [] (TimingWheelTimerManager.push wheels timer now).2 := by
  have hpos := wheels.tickDuration_pos
  -- the wheels from which the slot is computed
  obtain ⟨started, hstarted, hdur, hheld⟩ : ∃ started : TimerWheels ι,
      started = (if wheels.size = 0 then wheels.reset now else wheels) ∧
      started.tickDuration = wheels.tickDuration ∧
      Held .timingWheel (timer :: pushed) now [timer] started := by
    refine ⟨_, rfl, ?_⟩
    split
    · next hempty => exact ⟨rfl, (h.reset hempty).ofPushed timer (hrange.lt hpos)⟩
    exact ⟨rfl, h.ofPushed timer (hrange.lt hpos)⟩
  unfold TimingWheelTimerManager.push
  simp only [← hstarted]
  split
  · exact hheld.handleTimeout
  next hlate =>
  have hticks : 0 < (timer.expireTime - now + started.tickDuration - 1) / started.tickDuration :=
    Nat.div_pos (by omega) started.tickDuration_pos
  have hdiv := Nat.div_mul_le_self (timer.expireTime - now + started.tickDuration - 1)
    started.tickDuration
  split
  · next hspan =>
    rw [hdur] at hspan
    exact absurd hrange (Nat.not_lt.2 hspan)
  exact hheld.place hticks (by omega)

theorem Held.threadSafePush (h : Held .threadSafe pushed now [] wheels)
    (hrange : timer.expireTime < now + wheel5Span * wheels.tickDuration) :
    Held .threadSafe (timer :: pushed) now [] (ThreadSafeTimerManager.push wheels timer).2 := by
  have hheld := h.ofPushed timer hrange
  exact {
    accounted := hheld.accounted.congr rfl fun other => by
      simp only [tally, ThreadSafeTimerManager.push, count_append, count_nil]
      omega
    due := hheld.due
    size := hheld.size
    inRange := fun other hmem => by
      have hmem' : other ∈ wheels.pendingQueue ++ [timer] := hmem
      exact hheld.inRange other (List.perm_append_comm.mem_iff.1 hmem')
    pendingSize := by
      simp only [ThreadSafeTimerManager.push, length_append, length_singleton,
        h.pendingSize]
    pendingQueue := nofun
    started := hheld.started
    clock := hheld.clock }

theorem Held.push (h : Held manager pushed now [] wheels)
    (hrange : InRange manager wheels.tickDuration now timer) :
    Held manager (timer :: pushed) now [] (manager.push wheels timer now).2 := by
  cases manager with
  | timingWheel => exact h.timingWheelPush hrange
  | threadSafe => exact h.threadSafePush (hrange.lt wheels.tickDuration_pos)

theorem Held.processPendingTimers (hids : (pushed.map (·.id)).Nodup)
    (h : Held manager pushed now [] wheels) :
    Held manager pushed now [] (ThreadSafeTimerManager.processPendingTimers wheels now) ∧
    (ThreadSafeTimerManager.processPendingTimers wheels now).pendingQueue = [] := by
  have hstart : Held manager pushed now wheels.pendingQueue { wheels with
      pendingQueue := []
      pendingSize := wheels.pendingSize - wheels.pendingQueue.length } := {
    accounted := h.accounted.congr rfl fun other => by
      simp only [tally, count_nil]
      omega
    due := h.due
    size := h.size
    inRange := fun other hmem => h.inRange other (by
      simpa only [append_nil, nil_append] using hmem)
    pendingSize := by simp only [h.pendingSize, Nat.sub_self, length_nil]
    pendingQueue := fun _ => rfl
    started := h.started
    clock := h.clock }
  unfold ThreadSafeTimerManager.processPendingTimers
  refine Lib.foldl_invariant (P := fun rest next => Held manager pushed now rest next ∧
    next.pendingQueue = [] ∧ (now - next.startTime) / next.tickDuration =
      (now - wheels.startTime) / wheels.tickDuration) ?_ ⟨hstart, rfl, rfl⟩ |>.imp_right And.left
  rintro next timer rest ⟨hheld, hpend, htick⟩
  have halign := addTimerToWheel_aligned now
    ((now - wheels.startTime) / wheels.tickDuration) next timer
  have hadd := hheld.addTimerToWheel hids
  rw [htick] at hadd
  refine ⟨hadd, halign.pendingQueue.trans hpend, ?_⟩
  rw [halign.startTime, halign.tickDuration, htick]

theorem advances_aligned (manager : Manager) (now count : Nat) (wheels : TimerWheels ι) :
    ∃ tick, Aligned { wheels with currentTick := tick } (wheels.advances manager now count) := by
  induction count generalizing wheels with
  | zero => exact ⟨wheels.currentTick, Aligned.refl wheels⟩
  | succ count ih =>
  unfold advances
  split
  · exact ⟨wheels.currentTick, Aligned.refl wheels⟩
  obtain ⟨tick, hlast⟩ := ih (wheels.advance manager now)
  have halign := advance_aligned manager now wheels
  exact ⟨tick, hlast.tickDuration.trans halign.tickDuration,
    hlast.startTime.trans halign.startTime, hlast.currentTick,
    hlast.pendingQueue.trans halign.pendingQueue, hlast.pendingSize.trans halign.pendingSize,
    hlast.cancelled.trans halign.cancelled⟩

/-- What a call of `tick` leaves behind: only timers that expired at most two tick durations ago are
held, and all of them in the wheels. -/
structure Ticked (now : Nat) (wheels : TimerWheels ι) : Prop where
  recent : ∀ entry ∈ wheels.entries, now < entry.timer.expireTime + 2 * wheels.tickDuration
  pendingQueue : wheels.pendingQueue = []

theorem Held.ticked (h : Held manager pushed now [] wheels) (hpend : wheels.pendingQueue = [])
    (htick : wheels.size ≠ 0 → (now - wheels.startTime) / wheels.tickDuration ≤ wheels.currentTick) :
    Ticked now wheels where
  recent entry hmem := by
    obtain ⟨tick, hslot, hlow, hpos, hlate, hrange⟩ := h.due entry hmem
    have hsize : wheels.size ≠ 0 := by
      rw [h.size]
      exact Nat.ne_of_gt (length_pos_of_mem hmem)
    have hreached : wheels.currentTick * wheels.tickDuration ≤ tick * wheels.tickDuration :=
      Nat.mul_le_mul_right _ (Nat.le_trans hlow (Wheel.visit_le _ _))
    have htarget := Nat.mul_le_mul_right wheels.tickDuration (htick hsize)
    have hdivmod := Nat.div_add_mod' (now - wheels.startTime) wheels.tickDuration
    have hmod := Nat.mod_lt (now - wheels.startTime) wheels.tickDuration_pos
    omega
  pendingQueue := hpend

section

variable (hids : (pushed.map (·.id)).Nodup)
include hids

theorem Held.loop {count : Nat} {next : TimerWheels ι} (h : Held manager pushed now [] wheels)
    (hpend : wheels.pendingQueue = [])
    (hcount : (now - wheels.startTime) / wheels.tickDuration ≤ wheels.currentTick + count ∧ wheels.currentTick + count ≤ (now - wheels.startTime) / wheels.tickDuration + 1)
    (hnext : next = if (wheels.advances manager now count).size = 0 then (wheels.advances manager now count).reset now else wheels.advances manager now count)
    : Held manager pushed now [] next ∧ Ticked now next := by
  have hclock : wheels.startTime + (wheels.currentTick + count) * wheels.tickDuration ≤
      now + wheels.tickDuration := by
    have hmul := Nat.mul_le_mul_right wheels.tickDuration hcount.2
    have hdiv := Nat.div_mul_le_self (now - wheels.startTime) wheels.tickDuration
    have hstarted := h.started
    rw [Nat.add_mul _ 1] at hmul
    omega
  obtain ⟨hheld, hreached⟩ := h.advances hids count hclock
  have hqueue : (wheels.advances manager now count).pendingQueue = [] := by
    obtain ⟨tick, halign⟩ := advances_aligned manager now count wheels
    exact halign.pendingQueue.trans hpend
  split at hnext
  · next hempty =>
    subst hnext
    have hreset := hheld.reset hempty
    exact ⟨hreset, hreset.ticked hqueue fun hne => absurd hempty hne⟩
  next hne =>
  subst hnext
  have halign := hreached hne
  refine ⟨hheld, hheld.ticked hqueue fun _ => ?_⟩
  rw [halign.startTime, halign.tickDuration, halign.currentTick]
  exact hcount.1

theorem Held.timingWheelTick (h : Held .timingWheel pushed now [] wheels) :
    Held .timingWheel pushed now [] (TimingWheelTimerManager.tick wheels now) ∧
    Ticked now (TimingWheelTimerManager.tick wheels now) := by
  have hpend := h.pendingQueue rfl
  unfold TimingWheelTimerManager.tick
  split
  · next hempty => exact ⟨h, h.ticked hpend fun hne => absurd hempty hne⟩
  simp only
  split
  · next htarget => exact ⟨h, h.ticked hpend fun _ => htarget⟩
  next htarget => exact h.loop hids hpend (by omega) rfl

theorem Held.threadSafeTick (h : Held .threadSafe pushed now [] wheels) :
    Held .threadSafe pushed now [] (ThreadSafeTimerManager.tick wheels now) ∧
    Ticked now (ThreadSafeTimerManager.tick wheels now) := by
  obtain ⟨hadded, hpend⟩ := h.processPendingTimers hids
  unfold ThreadSafeTimerManager.tick
  simp only
  split
  · next hempty => exact ⟨hadded, hadded.ticked hpend fun hne => absurd hempty hne⟩
  split
  · next htarget => exact ⟨hadded, hadded.ticked hpend fun _ => htarget⟩
  next htarget => exact hadded.loop hids hpend (by omega) rfl

theorem Held.tick (h : Held manager pushed now [] wheels) :
    Held manager pushed now [] (manager.tick wheels now) ∧ Ticked now (manager.tick wheels now) := by
  cases manager with
  | timingWheel => exact h.timingWheelTick hids
  | threadSafe => exact h.threadSafeTick hids

end

theorem Held.cancel (h : Held manager pushed now rest wheels) (id : ι) :
    Held manager pushed now rest
      { wheels with cancelled := Function.update wheels.cancelled id true } :=
  { h with
    accounted := {
      le := h.accounted.le
      eq := fun timer hlive => by
        refine h.accounted.eq timer ?_
        by_cases hid : timer.id = id
        · subst hid
          simp only [Function.update_self, Bool.true_eq_false] at hlive
        simpa only [Function.update_of_ne hid] using hlive } }

/-! ## Runs -/

/-- The timers that are pushed are in the range of the wheels. -/
def PushesInRange (manager : Manager) (wheels : TimerWheels ι) (now : Nat) (call : Call ι) : Prop :=
  ∀ timer ∈ call.pushes, InRange manager wheels.tickDuration now timer

variable {tickDuration : Nat}

theorem push_tickDuration (manager : Manager) (wheels : TimerWheels ι) (timer : Timer ι) (now : Nat) :
    (manager.push wheels timer now).2.tickDuration = wheels.tickDuration := by
  cases manager with
  | timingWheel =>
    simp only [Manager.push, TimingWheelTimerManager.push]
    split <;> split <;> try split
    all_goals rfl
  | threadSafe => rfl

/-- The loop of `tick` and the reset after it leave the tick duration and the flags alone. -/
theorem loop_keeps (manager : Manager) (now count : Nat) (wheels : TimerWheels ι) :
    let last := wheels.advances manager now count
    let next := if last.size = 0 then last.reset now else last
    next.tickDuration = wheels.tickDuration ∧ next.cancelled = wheels.cancelled := by
  obtain ⟨tick, halign⟩ := advances_aligned manager now count wheels
  simp only
  split
  · exact ⟨halign.tickDuration, halign.cancelled⟩
  exact ⟨halign.tickDuration, halign.cancelled⟩

theorem tick_keeps (manager : Manager) (wheels : TimerWheels ι) (now : Nat) :
    (manager.tick wheels now).tickDuration = wheels.tickDuration ∧
    (manager.tick wheels now).cancelled = wheels.cancelled := by
  cases manager with
  | timingWheel =>
    simp only [Manager.tick, TimingWheelTimerManager.tick]
    split
    · exact ⟨rfl, rfl⟩
    split
    · exact ⟨rfl, rfl⟩
    exact loop_keeps .timingWheel now _ wheels
  | threadSafe =>
  have hpend : Aligned _ (ThreadSafeTimerManager.processPendingTimers wheels now) :=
    aligned_foldl (addTimerToWheel_aligned now _) wheels.pendingQueue
  simp only [Manager.tick, ThreadSafeTimerManager.tick]
  split
  · exact ⟨hpend.tickDuration, hpend.cancelled⟩
  split
  · exact ⟨hpend.tickDuration, hpend.cancelled⟩
  obtain ⟨hdur, hcancelled⟩ := loop_keeps .threadSafe now
    ((now - (ThreadSafeTimerManager.processPendingTimers wheels now).startTime) /
      (ThreadSafeTimerManager.processPendingTimers wheels now).tickDuration -
      (ThreadSafeTimerManager.processPendingTimers wheels now).currentTick)
    (ThreadSafeTimerManager.processPendingTimers wheels now)
  exact ⟨hdur.trans hpend.tickDuration, hcancelled.trans hpend.cancelled⟩

theorem tickDuration_of_runs (hrun : Runs manager tickDuration hpos Allowed pushed now wheels) :
    wheels.tickDuration = tickDuration := by
  induction hrun with
  | new now => rfl
  | @call _ _ later wheels next hrun hle hallowed ih =>
  cases next with
  | push timer => exact (push_tickDuration manager wheels timer later).trans ih
  | tick => exact (tick_keeps manager wheels later).1.trans ih
  | cancel id => exact ih

theorem held_new (now : Nat) : Held manager ([] : List (Timer ι)) now [] (.new tickDuration hpos now) where
  accounted := ⟨fun _ => Nat.le_refl _, fun _ _ => rfl⟩
  due := nofun
  size := rfl
  inRange := nofun
  pendingSize := rfl
  pendingQueue _ := rfl
  started := Nat.le_refl now
  clock := by
    simp only [new]
    omega

theorem Held.call {call : Call ι} (hids : ((call.pushes ++ pushed).map (·.id)).Nodup)
    (h : Held manager pushed now [] wheels) (hrange : PushesInRange manager wheels now call) :
    Held manager (call.pushes ++ pushed) now [] (wheels.call manager now call) := by
  cases call with
  | push timer => exact h.push (hrange timer mem_cons_self)
  | tick => exact (h.tick hids).1
  | cancel id => exact h.cancel id

theorem held_of_runs (hrun : Runs manager tickDuration hpos (PushesInRange manager) pushed now wheels)
    (hids : (pushed.map (·.id)).Nodup) : Held manager pushed now [] wheels := by
  induction hrun with
  | new now => exact held_new now
  | call next hrun hle hallowed ih =>
  have hbefore : (_ : List ι).Nodup := (map_append ▸ hids).of_append_right
  exact ((ih hbefore).mono hle).call hids hallowed

theorem Held.count_eq (h : Held manager pushed now [] wheels) :
    manager.count wheels = wheels.entries.length + wheels.pendingQueue.length := by
  cases manager with
  | timingWheel =>
    rw [h.pendingQueue rfl]
    exact h.size
  | threadSafe =>
  rw [← h.size, ← h.pendingSize]
  rfl

/-- No timer is fired twice. -/
theorem Held.fired_nodup (hids : (pushed.map (·.id)).Nodup)
    (h : Held manager pushed now [] wheels) : (wheels.fired.map (·.1.id)).Nodup := by
  have hcount (timer : Timer ι) :
      (wheels.fired.map (·.1)).count timer ≤ pushed.count timer := by
    have hle := h.accounted.le timer
    unfold tally at hle
    omega
  have hmem (timer : Timer ι) (hfired : timer ∈ wheels.fired.map (·.1)) : timer ∈ pushed :=
    List.count_pos_iff.1 (Nat.lt_of_lt_of_le (List.count_pos_iff.2 hfired) (hcount timer))
  have hnodup : (wheels.fired.map (·.1)).Nodup :=
    List.nodup_iff_count_le_one.2 fun timer =>
      Nat.le_trans (hcount timer) (List.nodup_iff_count_le_one.1 hids.of_map timer)
  have hmap : wheels.fired.map (·.1.id) = (wheels.fired.map (·.1)).map (·.id) := by
    rw [map_map]
    rfl
  rw [hmap]
  exact hnodup.map_on fun timer htimer other hother heq =>
    inj_on_of_nodup_map hids (hmem timer htimer) (hmem other hother) heq

theorem Held.mem_fired (h : Held manager pushed now [] wheels) (hticked : Ticked now wheels)
    (hmem : timer ∈ pushed) (hlive : wheels.cancelled timer.id = false)
    (hlate : timer.expireTime + 2 * wheels.tickDuration ≤ now) :
    timer.id ∈ wheels.fired.map (·.1.id) := by
  have hents : timer ∉ wheels.entries.map (·.timer) := by
    intro hheld
    obtain ⟨entry, hentry, rfl⟩ := List.mem_map.1 hheld
    have hrecent := hticked.recent entry hentry
    omega
  have heq := h.accounted.eq timer hlive
  simp only [tally, List.count_eq_zero.2 hents, hticked.pendingQueue, count_nil,
    Nat.zero_add] at heq
  have hfired : timer ∈ wheels.fired.map (·.1) := by
    rw [← count_pos_iff, heq, count_pos_iff]
    exact hmem
  obtain ⟨call, hcall, rfl⟩ := List.mem_map.1 hfired
  exact List.mem_map.2 ⟨call, hcall, rfl⟩

/-- In every run that pushes each timer once and within the range of the wheels, `size()` counts the
timers that are held, no timer is fired twice, and a timer that is not cancelled has been fired once
when a tick is over that comes two tick durations after its expire time. -/
theorem fired_once_of_runs
    (hrun : Runs manager tickDuration hpos (PushesInRange manager) pushed now wheels)
    (hids : (pushed.map (·.id)).Nodup) :
    manager.count wheels = wheels.entries.length + wheels.pendingQueue.length ∧
    (wheels.fired.map (·.1.id)).Nodup ∧
    ∀ later ≥ now, ∀ timer ∈ pushed, wheels.cancelled timer.id = false →
      timer.expireTime + 2 * tickDuration ≤ later →
      ((manager.tick wheels later).fired.map (·.1.id)).count timer.id = 1 := by
  have hheld := held_of_runs hrun hids
  refine ⟨hheld.count_eq, hheld.fired_nodup hids, ?_⟩
  intro later hle timer hmem hlive hlate
  obtain ⟨hafter, hticked⟩ := (hheld.mono hle).tick hids
  refine count_eq_one_of_mem (hafter.fired_nodup hids) ?_
  refine hafter.mem_fired hticked hmem ?_ ?_
  · rw [(tick_keeps manager wheels later).2]
    exact hlive
  rw [(tick_keeps manager wheels later).1, tickDuration_of_runs hrun]
  exact hlate

theorem fired_once_at_300 :
    ((Manager.timingWheel.tick (Manager.timingWheel.push (.new 1 Nat.one_pos 0)
      (⟨0, 300⟩ : Timer Nat) 0).2 302).fired.map (·.1.id)).count 0 = 1 := by
  have hrun : Runs .timingWheel 1 Nat.one_pos (PushesInRange .timingWheel) [⟨0, 300⟩] 0
      (Manager.timingWheel.push (.new 1 Nat.one_pos 0) (⟨0, 300⟩ : Timer Nat) 0).2 :=
    .call (.push ⟨0, 300⟩) (.new 0) (Nat.le_refl 0) (by
      intro timer hmem
      rw [List.mem_singleton.1 hmem]
      exact Nat.lt_of_lt_of_le (by decide : 300 < 301) (by decide))
  obtain ⟨-, -, hfired⟩ := fired_once_of_runs hrun (nodup_singleton _)
  exact hfired 302 (by decide) ⟨0, 300⟩ mem_cons_self rfl (by decide)

/-- A delay below `2 ^ 32` ticks that is rounded up to `2 ^ 32` ticks is rejected. -/
theorem not_fired_of_rounded_up : ∃ wheels : TimerWheels Nat,
    Runs .timingWheel 2 Nat.two_pos
      (fun wheels now call => ∀ timer ∈ call.pushes,
        timer.expireTime - now < 2 ^ 32 * wheels.tickDuration)
      [⟨0, 2 ^ 33 - 1⟩] 0 wheels ∧
    wheels.cancelled 0 = false ∧
    ((Manager.timingWheel.tick wheels (2 ^ 34)).fired.map (·.1.id)).count 0 = 0 := by
  refine ⟨_, .call (.push ⟨0, 2 ^ 33 - 1⟩) (.new 0) (Nat.le_refl 0) ?_, ?_, ?_⟩
  · intro timer hmem
    rw [List.mem_singleton.1 hmem]
    decide
  · rfl
  · decide

end Galay.Kernel.TimerWheels
