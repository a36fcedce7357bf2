import Mathlib.Data.List.Nodup
import Galay.Kernel.TimerWheelLemmas

/-!
# No timer is lost or fired twice

Every timer in the wheels has a tick ahead that comes at most one tick duration after its expire
time. When a call of `tick` is over, the ticks up to its time are behind, so a timer that expired
two tick durations before is no longer held; and a timer that has left the wheels was fired, or had
been cancelled.
-/

namespace Galay.Kernel.TimerWheels

open Function (update update_eq_self update_idem update_of_ne update_self)
open List

variable {ι : Type*} [DecidableEq ι]

/-! ## Accounts -/

/-- How often the timer is held by the manager, is among `rest` or was fired. -/
def tally (wheels : TimerWheels ι) (rest : List (Timer ι)) (timer : Timer ι) : Nat :=
  (wheels.entries.map (·.timer)).count timer + rest.count timer +
    wheels.pendingQueue.count timer + (wheels.fired.map (·.1)).count timer

/-- Every timer was pushed as often as it is found, and no timer got lost but a cancelled one. -/
structure Accounted (pushed rest : List (Timer ι)) (wheels : TimerWheels ι) : Prop where
  le : ∀ timer, wheels.tally rest timer ≤ pushed.count timer
  eq : ∀ timer, wheels.cancelled timer.id = false → wheels.tally rest timer = pushed.count timer

section Accounted

variable {wheels next : TimerWheels ι} {pushed rest : List (Timer ι)} {timer : Timer ι}

section

variable (h : Accounted pushed rest wheels)
include h

theorem Accounted.congr (hcancelled : next.cancelled = wheels.cancelled)
    (htally : ∀ timer, next.tally rest' timer = wheels.tally rest timer) :
    Accounted pushed rest' next where
  le timer := Nat.le_trans (Nat.le_of_eq (htally timer)) (h.le timer)
  eq timer hlive := (htally timer).trans (h.eq timer (hcancelled ▸ hlive))

theorem Accounted.mem_pushed (hmem : 0 < wheels.tally rest timer) : timer ∈ pushed :=
  List.count_pos_iff.1 (Nat.lt_of_lt_of_le hmem (h.le timer))

/-- A timer that is found outside the calls of `handleTimeout` was not fired yet. -/
theorem Accounted.done_eq_false (hids : (pushed.map (·.id)).Nodup)
    (hfound : (wheels.fired.map (·.1)).count timer < wheels.tally rest timer) :
    wheels.done timer = false := by
  by_contra hdone
  rw [Bool.not_eq_false, done, any_eq_true] at hdone
  obtain ⟨call, hcall, heq⟩ := hdone
  have hfired : 0 < (wheels.fired.map (·.1)).count call.1 :=
    List.count_pos_iff.2 (mem_map_of_mem hcall)
  have hpushed : call.1 ∈ pushed := h.mem_pushed (by unfold tally; omega)
  have htimer : timer ∈ pushed := h.mem_pushed (Nat.zero_lt_of_lt hfound)
  have hsame : call.1 = timer :=
    inj_on_of_nodup_map hids hpushed htimer (of_decide_eq_true heq)
  rw [hsame] at hfired
  have hle := h.le timer
  have hone := List.nodup_iff_count_le_one.1 hids.of_map timer
  omega

end

theorem Accounted.drop (h : Accounted pushed (timer :: rest) wheels)
    (hcancelled : wheels.cancelled timer.id = true) (size : Nat) :
    Accounted pushed rest { wheels with size := size } where
  le other := by
    have hle := h.le other
    simp only [tally, count_cons] at hle ⊢
    omega
  eq other hlive := by
    have heq := h.eq other hlive
    have hne : timer ≠ other := by
      rintro rfl
      exact Bool.noConfusion (hlive.symm.trans hcancelled)
    simpa only [tally, count_cons_of_ne hne] using heq

theorem tally_fire (now size : Nat) (other : Timer ι) :
    { wheels.handleTimeout now timer with size := size }.tally rest other =
      wheels.tally (timer :: rest) other := by
  simp only [tally, handleTimeout, map_append, count_append, map_singleton, count_cons, count_nil]
  omega

theorem tally_place (ticks absoluteTick size : Nat) (other : Timer ι) :
    { wheels.place timer ticks absoluteTick with size := size }.tally rest other =
      wheels.tally (timer :: rest) other := by
  simp only [tally, place, map_append, count_append, map_singleton, count_cons, count_nil]
  omega

theorem Accounted.skip (h : Accounted pushed (timer :: rest) wheels)
    (hids : (pushed.map (·.id)).Nodup)
    (hskip : wheels.done timer = true ∨ wheels.cancelled timer.id = true) (size : Nat) :
    Accounted pushed rest { wheels with size := size } := by
  refine h.drop (hskip.resolve_left ?_) size
  rw [Bool.not_eq_true]
  refine h.done_eq_false hids ?_
  simp only [tally, count_cons_self]
  omega

end Accounted

/-! ## Timers that are held -/

/-- The slot is for a tick whose turn comes from `low` on, and not too late for the timer. -/
def Due (wheels : TimerWheels ι) (low now : Nat) (entry : TimerEntry ι) : Prop :=
  ∃ tick, entry.slot = entry.wheel.slot tick ∧ low ≤ entry.wheel.visit tick ∧
    (entry.wheel ≠ .wheel1 → 0 < entry.wheel.visit tick) ∧
    wheels.startTime + tick * wheels.tickDuration ≤
      entry.timer.expireTime + wheels.tickDuration ∧
    entry.timer.expireTime < now + wheel5Span * wheels.tickDuration

/-- The state between the steps of a call at `now`: `low` tells for each wheel from which tick on its
timers wait, and `rest` are the timers of the slot that is being worked on. -/
structure Kept (pushed : List (Timer ι)) (low : Wheel → Nat) (now : Nat) (rest : List (Timer ι))
    (wheels : TimerWheels ι) : Prop where
  accounted : Accounted pushed rest wheels
  due : ∀ entry ∈ wheels.entries, wheels.Due (low entry.wheel) now entry
  inRange : ∀ timer ∈ rest, timer.expireTime < now + wheel5Span * wheels.tickDuration
  size : wheels.size = wheels.entries.length + rest.length
  low_le : ∀ wheel, low wheel ≤ wheels.currentTick + 1
  clock : wheels.startTime + wheels.currentTick * wheels.tickDuration ≤ now

variable {wheels next : TimerWheels ι} {low : Wheel → Nat} {now : Nat} {timer : Timer ι}
  {pushed rest : List (Timer ι)}

theorem due_of_delay {low : Nat} (hticks : 0 < ticks) (hlow : low ≤ tick + 1)
    (hlate : wheels.startTime + (tick + ticks) * wheels.tickDuration ≤
      timer.expireTime + wheels.tickDuration)
    (hrange : timer.expireTime < now + wheel5Span * wheels.tickDuration) : wheels.Due low now
      ⟨Wheel.forDelay ticks, (Wheel.forDelay ticks).slot (tick + ticks), timer⟩ := by
  have hvisit := Wheel.lt_visit_forDelay hticks tick
  exact ⟨tick + ticks, rfl, Nat.le_trans hlow hvisit, fun _ => Nat.zero_lt_of_lt hvisit, hlate,
    hrange⟩

theorem Kept.due_placed (h : Kept pushed low now (timer :: rest) wheels)
    (hticks : 0 < (timer.expireTime - now) / wheels.tickDuration) (wheel : Wheel) :
    wheels.Due (low wheel) now
      ⟨Wheel.forDelay ((timer.expireTime - now) / wheels.tickDuration),
        (Wheel.forDelay ((timer.expireTime - now) / wheels.tickDuration)).slot
          (wheels.currentTick + (timer.expireTime - now) / wheels.tickDuration), timer⟩ := by
  refine due_of_delay hticks (h.low_le wheel) ?_ (h.inRange timer mem_cons_self)
  have hclock := h.clock
  have hdiv := Nat.div_mul_le_self (timer.expireTime - now) wheels.tickDuration
  have hlate : 0 < timer.expireTime - now := by
    by_contra hnot
    rw [Nat.eq_zero_of_not_pos hnot, Nat.zero_div] at hticks
    exact Nat.lt_irrefl 0 hticks
  rw [Nat.add_mul]
  omega

theorem Kept.skip (hids : (pushed.map (·.id)).Nodup) (h : Kept pushed low now (timer :: rest) wheels)
    (hskip : wheels.done timer = true ∨ wheels.cancelled timer.id = true) :
    Kept pushed low now rest { wheels with size := wheels.size - 1 } where
  __ := h
  accounted := h.accounted.skip hids hskip _
  inRange other hmem := h.inRange other (mem_cons_of_mem _ hmem)
  size := by
    have hsize := h.size
    rw [length_cons] at hsize
    simp only
    omega

theorem Kept.fire (h : Kept pushed low now (timer :: rest) wheels) :
    Kept pushed low now rest { wheels.handleTimeout now timer with size := wheels.size - 1 } where
  __ := h
  accounted := h.accounted.congr rfl (tally_fire now _)
  inRange other hmem := h.inRange other (mem_cons_of_mem _ hmem)
  size := by
    have hsize := h.size
    rw [length_cons] at hsize
    simp only [handleTimeout]
    omega

theorem Kept.replace (h : Kept pushed low now (timer :: rest) wheels)
    (hticks : 0 < (timer.expireTime - now) / wheels.tickDuration) :
    Kept pushed low now rest (wheels.place timer ((timer.expireTime - now) / wheels.tickDuration)
      (wheels.currentTick + (timer.expireTime - now) / wheels.tickDuration)) where
  __ := h
  accounted := h.accounted.congr rfl (tally_place _ _ _)
  due entry hmem := by
    rcases List.mem_append.1 hmem with hold | hnew
    · exact h.due entry hold
    rw [List.mem_singleton.1 hnew]
    exact h.due_placed hticks _
  inRange other hmem := h.inRange other (mem_cons_of_mem _ hmem)
  size := by
    have hsize := h.size
    simp only [place, length_append, length_singleton]
    rw [length_cons] at hsize
    omega

theorem Kept.settle (hids : (pushed.map (·.id)).Nodup)
    (h : Kept pushed low now (timer :: rest) wheels) (hsettles : Settles now wheels timer next) :
    Kept pushed low now rest next := by
  cases hsettles with
  | drop hskip =>
    have hrange := h.inRange timer mem_cons_self
    exact h.skip hids (hskip.resolve_right (Nat.not_le.2 hrange))
  | fire hearly => exact h.fire
  | replace hlive hticks => exact h.replace hticks

theorem Kept.processTimer (manager : Manager) (hids : (pushed.map (·.id)).Nodup)
    (h : Kept pushed low now (timer :: rest) wheels) :
    Kept pushed low now rest (processTimer manager now wheels timer) := by
  cases manager with
  | timingWheel => exact h.fire
  | threadSafe =>
  unfold TimerWheels.processTimer
  simp only
  split
  · exact h.fire
  next hskip =>
  refine h.skip hids ?_
  rwa [← Bool.not_or, Bool.not_eq_true', Bool.not_eq_false, Bool.or_eq_true] at hskip

omit [DecidableEq ι] in
variable {wheel : Wheel}

theorem exists_of_mem_slotTimers (hmem : timer ∈ wheels.slotTimers wheel slot) :
    ∃ entry ∈ wheels.entries, (entry.wheel = wheel ∧ entry.slot = slot) ∧ entry.timer = timer := by
  obtain ⟨entry, hentry, heq⟩ := List.mem_map.1 hmem
  obtain ⟨hold, hslot⟩ := List.mem_filter.1 hentry
  exact ⟨entry, hold, of_decide_eq_true hslot, heq⟩

omit [DecidableEq ι] in
variable {entry : TimerEntry ι}

theorem mem_clearSlot (hmem : entry ∈ (wheels.clearSlot wheel slot).entries) :
    entry ∈ wheels.entries ∧ ¬ (entry.wheel = wheel ∧ entry.slot = slot) := by
  obtain ⟨hold, hother⟩ := List.mem_filter.1 hmem
  exact ⟨hold, of_decide_eq_true hother⟩

theorem slotTimers_perm (wheels : TimerWheels ι) (wheel : Wheel) (slot : Nat) :
    (wheels.slotTimers wheel slot ++ (wheels.clearSlot wheel slot).entries.map (·.timer)).Perm
      (wheels.entries.map (·.timer)) := by
  unfold clearSlot slotTimers
  rw [← map_append]
  simp only [decide_not]
  exact (filter_append_perm
    (fun entry : TimerEntry ι => decide (entry.wheel = wheel ∧ entry.slot = slot))
    wheels.entries).map _

theorem Accounted.clearSlot (h : Accounted pushed [] wheels) (wheel : Wheel) (slot : Nat) :
    Accounted pushed (wheels.slotTimers wheel slot) (wheels.clearSlot wheel slot) := by
  refine h.congr rfl fun timer => ?_
  have hcount := (wheels.slotTimers_perm wheel slot).count_eq timer
  rw [count_append] at hcount
  simp only [tally, count_nil]
  rw [← hcount]
  simp only [TimerWheels.clearSlot]
  omega

/-- The timers left in a wheel when its slot for a tick is taken out wait for a later tick. -/
theorem Due.later {tick : Nat} (h : wheels.Due tick now entry)
    (hreached : entry.wheel = .wheel1 ∨ tick % 2 ^ entry.wheel.shift = 0 ∧ 0 < tick → entry.slot ≠ entry.wheel.slot tick)
    : wheels.Due (tick + 1) now entry := by
  obtain ⟨due, hslot, hlow, hpos, hrest⟩ := h
  refine ⟨due, hslot, Nat.lt_of_le_of_ne hlow ?_, hpos, hrest⟩
  rintro rfl
  refine hreached ?_ (hslot.trans (Wheel.slot_visit _ _).symm)
  by_cases hwheel : entry.wheel = .wheel1
  · exact .inl hwheel
  exact .inr ⟨Wheel.visit_mod .., hpos hwheel⟩

/-! ### One tick -/

theorem Kept.clearSlot (h : Kept pushed low now [] wheels) (hlow : low wheel = wheels.currentTick) :
    Kept pushed (update low wheel (wheels.currentTick + 1)) now
      (wheels.slotTimers wheel (wheel.slot wheels.currentTick))
      (wheels.clearSlot wheel (wheel.slot wheels.currentTick)) where
  accounted := h.accounted.clearSlot wheel _
  due entry hmem := by
    obtain ⟨hold, hother⟩ := mem_clearSlot hmem
    have hdue := h.due entry hold
    by_cases hwheel : entry.wheel = wheel
    · subst hwheel
      rw [update_self]
      rw [hlow] at hdue
      exact hdue.later fun _ hslot => hother ⟨rfl, hslot⟩
    rw [update_of_ne hwheel]
    exact hdue
  inRange timer hmem := by
    obtain ⟨entry, hentry, -, rfl⟩ := exists_of_mem_slotTimers hmem
    obtain ⟨-, -, -, -, -, hrange⟩ := h.due entry hentry
    exact hrange
  size := by
    have hlen := (wheels.slotTimers_perm wheel (wheel.slot wheels.currentTick)).length_eq
    have hsize := h.size
    simp only [length_append, length_map, length_nil] at hlen hsize
    change wheels.size = _
    omega
  low_le other := by
    by_cases hwheel : other = wheel
    · subst hwheel
      exact Nat.le_of_eq (update_self ..)
    rw [update_of_ne hwheel]
    exact h.low_le other
  clock := h.clock

theorem Kept.cascadeSlot (hids : (pushed.map (·.id)).Nodup) (h : Kept pushed low now [] wheels)
    (hlow : low wheel = wheels.currentTick) :
    Kept pushed (update low wheel (wheels.currentTick + 1)) now [] (wheels.cascadeSlot now wheel) :=
  Lib.foldl_invariant (P := Kept pushed (update low wheel (wheels.currentTick + 1)) now)
    (fun wheels timer _ hkept => hkept.settle hids (cascadeTimer_cases now wheels timer))
    (h.clearSlot hlow)

theorem Kept.processWheel1 (manager : Manager) (hids : (pushed.map (·.id)).Nodup)
    (h : Kept pushed low now [] wheels)
    (hlow : low .wheel1 = wheels.currentTick) :
    Kept pushed (update low .wheel1 (wheels.currentTick + 1)) now []
      (wheels.processWheel1 manager now) :=
  Lib.foldl_invariant (P := Kept pushed (update low .wheel1 (wheels.currentTick + 1)) now)
    (fun _ _ _ hkept => hkept.processTimer manager hids) (h.clearSlot hlow)

theorem Kept.cascadeWheel (hids : (pushed.map (·.id)).Nodup) (h : Kept pushed low now [] wheels)
    (hwheel : wheel ≠ .wheel1) (hlow : low wheel = wheels.currentTick) :
    Kept pushed (update low wheel (wheels.currentTick + 1)) now []
      (wheels.cascadeWheel now wheel) := by
  unfold TimerWheels.cascadeWheel
  split
  · exact h.cascadeSlot hids hlow
  next hguard =>
  refine ⟨h.accounted, ?_, nofun, h.size, ?_, h.clock⟩
  · intro entry hmem
    have hdue := h.due entry hmem
    by_cases heq : entry.wheel = wheel
    · subst heq
      rw [update_self]
      rw [hlow] at hdue
      exact hdue.later fun hreached => absurd (hreached.resolve_left hwheel) hguard
    rw [update_of_ne heq]
    exact hdue
  intro other
  by_cases heq : other = wheel
  · subst heq
    exact Nat.le_of_eq (update_self ..)
  rw [update_of_ne heq]
  exact h.low_le other

theorem Kept.cascades (hids : (pushed.map (·.id)).Nodup)
    (h : Kept pushed (fun _ => wheels.currentTick) now [] wheels) :
    Kept pushed (update (fun _ => wheels.currentTick + 1) .wheel1 wheels.currentTick) now []
      (wheels.cascades now) := by
  have a2 := cascadeWheel_aligned now wheels .wheel2
  have a3 := a2.trans (cascadeWheel_aligned now _ .wheel3)
  have a4 := a3.trans (cascadeWheel_aligned now _ .wheel4)
  have h2 : Kept pushed _ now [] (wheels.cascadeWheel2 now) := h.cascadeWheel hids nofun rfl
  have h3 : Kept pushed _ now [] ((wheels.cascadeWheel2 now).cascadeWheel3 now) :=
    h2.cascadeWheel hids nofun a2.currentTick.symm
  have h4 : Kept pushed _ now [] (((wheels.cascadeWheel2 now).cascadeWheel3 now).cascadeWheel4 now) :=
    h3.cascadeWheel hids nofun a3.currentTick.symm
  have h5 : Kept pushed _ now [] (wheels.cascades now) := h4.cascadeWheel hids nofun a4.currentTick.symm
  convert h5 using 1
  funext wheel
  cases wheel with
  | wheel1 => rfl
  | wheel2 => rfl
  | wheel3 => exact congrArg (· + 1) a2.currentTick.symm
  | wheel4 => exact congrArg (· + 1) a3.currentTick.symm
  | wheel5 => exact congrArg (· + 1) a4.currentTick.symm

theorem Kept.ofProcessed (manager : Manager) (hids : (pushed.map (·.id)).Nodup)
    (h : Kept pushed (fun _ => wheels.currentTick) now [] wheels) :
    Kept pushed (fun _ => wheels.currentTick + 1) now []
      ((wheels.cascades now).processWheel1 manager now) := by
  have halign := (cascades_aligned now wheels).currentTick
  have hprocessed := (h.cascades hids).processWheel1 manager hids halign.symm
  rw [halign, update_idem] at hprocessed
  convert hprocessed using 1
  exact (update_eq_self Wheel.wheel1 fun _ => wheels.currentTick + 1).symm

/-! ## Between the calls -/

/-- What holds between the calls, and, with the timers in `rest` that are still to be added to the
wheels, within them. -/
structure Held (manager : Manager) (pushed : List (Timer ι)) (now : Nat) (rest : List (Timer ι))
    (wheels : TimerWheels ι) : Prop where
  accounted : Accounted pushed rest wheels
  due : ∀ entry ∈ wheels.entries, wheels.Due wheels.currentTick now entry
  size : wheels.size = wheels.entries.length
  inRange : ∀ timer ∈ rest ++ wheels.pendingQueue,
    timer.expireTime < now + wheel5Span * wheels.tickDuration
  pendingSize : wheels.pendingSize = wheels.pendingQueue.length
  pendingQueue : manager = .timingWheel → wheels.pendingQueue = []
  started : wheels.startTime ≤ now
  clock : wheels.startTime + wheels.currentTick * wheels.tickDuration ≤ now + wheels.tickDuration

variable {manager : Manager}

omit [DecidableEq ι] in
theorem Due.mono {low later : Nat} (hle : now ≤ later) (h : wheels.Due low now entry) :
    wheels.Due low later entry := by
  obtain ⟨tick, hslot, hlow, hpos, hlate, hrange⟩ := h
  exact ⟨tick, hslot, hlow, hpos, hlate, by omega⟩

theorem Held.mono (hle : now ≤ later) (h : Held manager pushed now rest wheels) :
    Held manager pushed later rest wheels where
  __ := h
  due entry hmem := (h.due entry hmem).mono hle
  inRange timer hmem := Nat.lt_of_lt_of_le (h.inRange timer hmem) (Nat.add_le_add_right hle _)
  started := Nat.le_trans h.started hle
  clock := Nat.le_trans h.clock (Nat.add_le_add_right hle _)

/-- No tick from the first one after the clock on is behind. -/
theorem Held.currentTick_le (h : Held manager pushed now rest wheels) :
    wheels.currentTick ≤ (now - wheels.startTime) / wheels.tickDuration + 1 := by
  rw [← Nat.add_div_right _ wheels.tickDuration_pos, Nat.le_div_iff_mul_le wheels.tickDuration_pos]
  have hclock := h.clock
  have hstarted := h.started
  omega

/-! ### The loop of `tick` -/

theorem advance_aligned (manager : Manager) (now : Nat) (wheels : TimerWheels ι) :
    Aligned { wheels with currentTick := wheels.currentTick + 1 } (wheels.advance manager now) := by
  have halign := (cascades_aligned now wheels).trans (processWheel1_aligned manager now _)
  rw [advance_eq]
  exact { halign with currentTick := rfl }

theorem Held.advance (hids : (pushed.map (·.id)).Nodup) (h : Held manager pushed now [] wheels)
    (hclock : wheels.startTime + wheels.currentTick * wheels.tickDuration ≤ now) :
    Held manager pushed now [] (wheels.advance manager now) := by
  have hkept : Kept pushed (fun _ => wheels.currentTick) now [] wheels :=
    ⟨h.accounted, h.due, nofun, h.size, fun _ => Nat.le_succ _, hclock⟩
  have hprocessed := hkept.ofProcessed manager hids
  have halign := (cascades_aligned now wheels).trans (processWheel1_aligned manager now _)
  rw [advance_eq]
  exact {
    accounted := hprocessed.accounted.congr rfl fun _ => rfl
    due := hprocessed.due
    size := hprocessed.size
    inRange := by
      have hrange := h.inRange
      rw [← halign.pendingQueue, ← halign.tickDuration] at hrange
      exact hrange
    pendingSize := halign.pendingSize.trans
      (h.pendingSize.trans (congrArg List.length halign.pendingQueue.symm))
    pendingQueue := fun hmanager => halign.pendingQueue.trans (h.pendingQueue hmanager)
    started := Nat.le_trans (Nat.le_of_eq halign.startTime) h.started
    clock := by
      simp only
      rw [halign.startTime, halign.tickDuration, Nat.add_mul]
      omega }

/-- The wheels have gone on to the given tick, or are empty. -/
theorem Held.advances (hids : (pushed.map (·.id)).Nodup) (count : Nat)
    (h : Held manager pushed now [] wheels)
    (hclock : wheels.startTime + (wheels.currentTick + count) * wheels.tickDuration ≤
      now + wheels.tickDuration) :
    Held manager pushed now [] (wheels.advances manager now count) ∧
    ((wheels.advances manager now count).size ≠ 0 →
      Aligned { wheels with currentTick := wheels.currentTick + count }
        (wheels.advances manager now count)) := by
  induction count generalizing wheels with
  | zero => exact ⟨h, fun _ => Aligned.refl wheels⟩
  | succ count ih =>
  unfold TimerWheels.advances
  split
  · next hempty => exact ⟨h, fun hne => absurd hempty hne⟩
  next hne =>
  have halign := advance_aligned manager now wheels
  have hnow : wheels.startTime + wheels.currentTick * wheels.tickDuration ≤ now := by
    rw [Nat.add_mul, Nat.add_mul] at hclock
    omega
  have hcount : wheels.currentTick + (count + 1) = wheels.currentTick + 1 + count := by omega
  rw [hcount] at hclock
  obtain ⟨hheld, hreached⟩ := ih (h.advance hids hnow) (by
    rw [halign.startTime, halign.currentTick, halign.tickDuration]
    exact hclock)
  refine ⟨hheld, fun hne => ?_⟩
  have hlast := hreached hne
  rw [halign.currentTick] at hlast
  rw [hcount]
  exact { hlast with
    tickDuration := hlast.tickDuration.trans halign.tickDuration
    startTime := hlast.startTime.trans halign.startTime
    pendingQueue := hlast.pendingQueue.trans halign.pendingQueue
    pendingSize := hlast.pendingSize.trans halign.pendingSize
    cancelled := hlast.cancelled.trans halign.cancelled }

end Galay.Kernel.TimerWheels
