import Galay.Kernel.TimerManagerRun

/-!
# When a timer is fired early

The first wheel fires what it finds in the slot of a tick without looking at the expire time. A timer
in it is in time if its own tick is the next one of that slot, which can fail when the tick of the
wheels is behind the clock, and if that tick does not come too soon, which can fail when the timer
comes down from a higher wheel.
-/

namespace Galay.Kernel.TimerWheels

open List

variable {ι : Type*} [DecidableEq ι]

/-! ## Calls that leave no timer early -/

variable (manager : Manager)

/-- How long after a tick the timers for that tick may expire. A tick is worked off by
`TimingWheelTimerManager` when its time comes, and by `ThreadSafeTimerManager` one tick later. -/
def slack (tickDuration : Nat) : Nat :=
  match manager with
  | .timingWheel => tickDuration
  | .threadSafe => 2 * tickDuration

/-- Where the loop of `tick` ends. -/
def loopEnd (now : Nat) (wheels : TimerWheels ι) : Nat :=
  match manager with
  | .timingWheel => (now - wheels.startTime) / wheels.tickDuration + 1
  | .threadSafe => (now - wheels.startTime) / wheels.tickDuration

/-- The timer is neither done nor cancelled. -/
def Live (wheels : TimerWheels ι) (timer : Timer ι) : Prop :=
  wheels.done timer = false ∧ wheels.cancelled timer.id = false

/-- A timer that is moved to the first wheel at a tick is not put into too early a slot: the time by
which the tick is behind the clock, and the part of a tick that is rounded off, are no more than the
slack. -/
def CleanMove (now : Nat) (wheels : TimerWheels ι) (tick : Nat) (timer : Timer ι) : Prop:=
  now + wheels.tickDuration < timer.expireTime → timer.expireTime < now + 256 * wheels.tickDuration →
    now - (wheels.startTime + tick * wheels.tickDuration) +
      (timer.expireTime - now) % wheels.tickDuration ≤ slack manager wheels.tickDuration

/-- The slot of a higher wheel is emptied at the tick. -/
def Reached (tick : Nat) (entry : TimerEntry ι) : Prop :=
  (tick % 2 ^ entry.wheel.shift = 0 ∧ 0 < tick) ∧ entry.slot = entry.wheel.slot tick

/-- The timers of the higher wheels whose slots are emptied before a tick are moved in time. -/
def CleanMoves (now last : Nat) (wheels : TimerWheels ι) : Prop :=
  ∀ entry ∈ wheels.entries, entry.wheel ≠ .wheel1 → wheels.Live entry.timer →
    ∀ tick, wheels.currentTick ≤ tick → tick < last → Reached tick entry →
      CleanMove manager now wheels tick entry.timer

/-- A timer that is added to the first wheel is less than one turn of that wheel ahead. -/
def CleanAdd (now : Nat) (wheels : TimerWheels ι) (timer : Timer ι) (ticks : Nat) : Prop :=
  now + wheels.tickDuration < timer.expireTime → ticks < 256 →
    (now - wheels.startTime) / wheels.tickDuration + ticks < wheels.currentTick + 256

/-- The calls after which no timer is in too early a slot of the first wheel. -/
def CleanCall (wheels : TimerWheels ι) (now : Nat) : Call ι → Prop
  | .push timer => manager = .timingWheel → wheels.size ≠ 0 →
    CleanAdd now wheels timer
      ((timer.expireTime - now + wheels.tickDuration - 1) / wheels.tickDuration)
  | .tick =>
    (manager = .threadSafe → ∀ timer ∈ wheels.pendingQueue, wheels.Live timer →
      CleanAdd now wheels timer ((timer.expireTime - now) / wheels.tickDuration)) ∧
    (wheels.currentTick < (now - wheels.startTime) / wheels.tickDuration →
      CleanMoves manager now (loopEnd manager now wheels) wheels)
  | .cancel _ => True

variable {manager}

/-! ## Slots of the first wheel -/

/-- The timer is not fired early: its expire time is near, or the next tick of the slot from `low` on
is not before that time. -/
def Timely (manager : Manager) (now low : Nat) (wheels : TimerWheels ι) (slot : Nat)
    (timer : Timer ι) : Prop :=
  timer.expireTime ≤ now + wheels.tickDuration ∨
  ∃ tick, slot = Wheel.wheel1.slot tick ∧ low ≤ tick ∧ tick < low + 256 ∧
    timer.expireTime ≤ wheels.startTime + tick * wheels.tickDuration +
      slack manager wheels.tickDuration

variable {manager : Manager} {base wheels next : TimerWheels ι} {now low last : Nat}
  {timer : Timer ι} {rest : List (Timer ι)}

omit [DecidableEq ι] in
theorem Timely.near (hclock : wheels.startTime + low * wheels.tickDuration +
      slack manager wheels.tickDuration ≤ now + wheels.tickDuration)
    (h : Timely manager now low wheels (Wheel.wheel1.slot low) timer) :
    timer.expireTime ≤ now + wheels.tickDuration := by
  rcases h with hnear | ⟨tick, hslot, hlow, hturn, hexpire⟩
  · exact hnear
  have htick : tick = low := by
    rw [Wheel.slot_eq, Wheel.slot_eq] at hslot
    simp only [Wheel.shift, Wheel.slots, Nat.pow_zero, Nat.div_one] at hslot
    omega
  subst htick
  exact Nat.le_trans hexpire hclock

omit [DecidableEq ι] in
theorem Timely.later {slot : Nat} (h : Timely manager now low wheels slot timer)
    (hslot : slot ≠ Wheel.wheel1.slot low) : Timely manager now (low + 1) wheels slot timer := by
  rcases h with hnear | ⟨tick, hslot', hlow, hturn, hexpire⟩
  · exact .inl hnear
  have hne : low ≠ tick := by
    rintro rfl
    exact hslot hslot'
  exact .inr ⟨tick, hslot', Nat.lt_of_le_of_ne hlow hne, by omega, hexpire⟩

omit [DecidableEq ι] in
theorem Timely.mono {later : Nat} (hle : now ≤ later)
    (h : Timely manager now low wheels slot timer) : Timely manager later low wheels slot timer :=
  h.imp_left fun hnear => Nat.le_trans hnear (Nat.add_le_add_right hle _)

/-! ## One tick -/

/-- The state between the steps of a tick that started from `base`, with `rest` the timers of the slot
that is being worked on. -/
structure Punctual (manager : Manager) (base : TimerWheels ι) (now low last : Nat)
    (rest : List (Timer ι)) (wheels : TimerWheels ι) : Prop where
  aligned : Aligned base wheels
  done : ∀ timer, base.done timer = true → wheels.done timer = true
  timely : ∀ entry ∈ wheels.entries, entry.wheel = .wheel1 →
    Timely manager now low base entry.slot entry.timer
  clean : ∀ entry ∈ wheels.entries, entry.wheel ≠ .wheel1 → base.Live entry.timer →
    ∀ tick, base.currentTick ≤ tick → tick < last → Reached tick entry →
      CleanMove manager now base tick entry.timer
  size : wheels.size = wheels.entries.length + rest.length
  fired : ∀ call ∈ wheels.fired, call.1.expireTime ≤ call.2 + base.tickDuration

theorem done_handleTimeout (hdone : wheels.done other = true) :
    (wheels.handleTimeout now timer).done other = true := by
  unfold TimerWheels.done TimerWheels.handleTimeout at *
  rw [any_append, hdone, Bool.true_or]

theorem Punctual.drop (h : Punctual manager base now low last (timer :: rest) wheels) :
    Punctual manager base now low last rest { wheels with size := wheels.size - 1 } where
  __ := h
  aligned := h.aligned.trans ⟨rfl, rfl, rfl, rfl, rfl, rfl⟩
  size := by
    have hsize := h.size
    rw [length_cons] at hsize
    simp only
    omega

theorem Punctual.fire (h : Punctual manager base now low last (timer :: rest) wheels)
    (hnear : timer.expireTime ≤ now + base.tickDuration) :
    Punctual manager base now low last rest
      { wheels.handleTimeout now timer with size := wheels.size - 1 } where
  __ := h
  aligned := h.aligned.trans ⟨rfl, rfl, rfl, rfl, rfl, rfl⟩
  done other hdone := done_handleTimeout (h.done other hdone)
  size := by
    have hsize := h.size
    rw [length_cons] at hsize
    simp only [handleTimeout]
    omega
  fired call hmem := by
    rcases List.mem_append.1 hmem with hold | hnew
    · exact h.fired call hold
    rw [List.mem_singleton.1 hnew]
    exact hnear

omit [DecidableEq ι] in
/-- A timer that is moved to the first wheel waits for a tick within the next turn. -/
theorem CleanMove.timely (hclock : base.startTime + base.currentTick * base.tickDuration ≤ now)
    (h : CleanMove manager now base base.currentTick timer)
    (hturn : (timer.expireTime - now) / base.tickDuration < 256) :
    Timely manager now base.currentTick base
      (Wheel.wheel1.slot (base.currentTick + (timer.expireTime - now) / base.tickDuration))
      timer := by
  by_cases hnear : timer.expireTime ≤ now + base.tickDuration
  · exact .inl hnear
  refine .inr ⟨_, rfl, Nat.le_add_right _ _, Nat.add_lt_add_left hturn _, ?_⟩
  rw [Nat.div_lt_iff_lt_mul base.tickDuration_pos] at hturn
  have hround := h (Nat.not_le.1 hnear) (by omega)
  have hdivmod := Nat.div_add_mod' (timer.expireTime - now) base.tickDuration
  rw [Nat.add_mul]
  omega

theorem Wheel.forDelay_eq_wheel1 : Wheel.forDelay ticks = .wheel1 ↔ ticks < 256 := by
  unfold Wheel.forDelay
  split
  · next h => exact iff_of_true rfl h
  next h =>
  refine iff_of_false ?_ h
  split
  · nofun
  split
  · nofun
  split <;> nofun

theorem Punctual.replace
    (hclock : base.startTime + base.currentTick * base.tickDuration ≤ now)
    (h : Punctual manager base now base.currentTick last (timer :: rest) wheels)
    (hmove : CleanMove manager now base base.currentTick timer)
    (hticks : 0 < (timer.expireTime - now) / wheels.tickDuration) :
    Punctual manager base now base.currentTick last rest
      (wheels.place timer ((timer.expireTime - now) / wheels.tickDuration)
        (wheels.currentTick + (timer.expireTime - now) / wheels.tickDuration)) := by
  rw [h.aligned.tickDuration, h.aligned.currentTick]
  rw [h.aligned.tickDuration] at hticks
  generalize hdelay : (timer.expireTime - now) / base.tickDuration = ticks at hticks ⊢
  exact {
    aligned := h.aligned.trans ⟨rfl, rfl, rfl, rfl, rfl, rfl⟩
    done := h.done
    timely := fun entry hmem hwheel => by
      rcases List.mem_append.1 hmem with hold | hnew
      · exact h.timely entry hold hwheel
      rw [List.mem_singleton.1 hnew] at hwheel ⊢
      have hturn := Wheel.forDelay_eq_wheel1.1 hwheel
      simp only [Wheel.forDelay_eq_wheel1.2 hturn]
      subst hdelay
      exact hmove.timely hclock hturn
    clean := fun entry hmem hwheel hlive tick htick hlast hreached => by
      rcases List.mem_append.1 hmem with hold | hnew
      · exact h.clean entry hold hwheel hlive tick htick hlast hreached
      -- a timer that stays in the higher wheels is too far ahead for the first one
      rw [List.mem_singleton.1 hnew] at hwheel ⊢
      intro (hfar : now + base.tickDuration < timer.expireTime)
        (hnear : timer.expireTime < now + 256 * base.tickDuration)
      refine absurd (Wheel.forDelay_eq_wheel1.2 ?_) hwheel
      rw [← hdelay, Nat.div_lt_iff_lt_mul base.tickDuration_pos]
      omega
    size := by
      have hsize := h.size
      rw [length_cons] at hsize
      simp only [place, length_append, length_singleton]
      omega
    fired := h.fired }

theorem Punctual.settle
    (hclock : base.startTime + base.currentTick * base.tickDuration ≤ now)
    (h : Punctual manager base now base.currentTick last (timer :: rest) wheels)
    (hmove : base.Live timer → CleanMove manager now base base.currentTick timer)
    (hsettles : Settles now wheels timer next) :
    Punctual manager base now base.currentTick last rest next := by
  cases hsettles with
  | drop hskip => exact h.drop
  | fire hearly =>
    rw [h.aligned.tickDuration] at hearly
    exact h.fire (Nat.le_of_lt hearly)
  | replace hlive hticks =>
  refine h.replace hclock (hmove ⟨?_, ?_⟩) hticks
  · rw [← Bool.not_eq_true]
    intro hdone
    exact Bool.noConfusion ((h.done timer hdone).symm.trans hlive.1)
  rw [← h.aligned.cancelled]
  exact hlive.2

/-! ### Slots -/

theorem Punctual.clearSlot (h : Punctual manager base now low last [] wheels) (wheel : Wheel)
    (slot : Nat) :
    Punctual manager base now low last (wheels.slotTimers wheel slot)
      (wheels.clearSlot wheel slot) where
  __ := h
  aligned := h.aligned.trans (wheels.clearSlot_aligned wheel slot)
  timely entry hmem := h.timely entry (mem_clearSlot hmem).1
  clean entry hmem := h.clean entry (mem_clearSlot hmem).1
  size := by
    have hlen := (wheels.slotTimers_perm wheel slot).length_eq
    have hsize := h.size
    simp only [length_append, length_map, length_nil] at hlen hsize
    change wheels.size = _
    omega

theorem Punctual.cascadeWheel (hclock : base.startTime + base.currentTick * base.tickDuration ≤ now)
    (hlast : base.currentTick < last)
    (h : Punctual manager base now base.currentTick last [] wheels) (hwheel : wheel ≠ .wheel1) :
    Punctual manager base now base.currentTick last [] (wheels.cascadeWheel now wheel) := by
  unfold TimerWheels.cascadeWheel
  split
  · next hguard =>
    -- the timers of the slot are moved in time
    have hmoves : ∀ timer ∈ wheels.slotTimers wheel (wheel.slot wheels.currentTick),
        base.Live timer → CleanMove manager now base base.currentTick timer := by
      intro timer hmem hlive
      obtain ⟨entry, hentry, ⟨rfl, hslot⟩, rfl⟩ := exists_of_mem_slotTimers hmem
      rw [h.aligned.currentTick] at hguard hslot
      exact h.clean entry hentry hwheel hlive _ (Nat.le_refl _) hlast ⟨hguard, hslot⟩
    refine (Lib.foldl_invariant (P := fun rest next =>
      Punctual manager base now base.currentTick last rest next ∧ ∀ timer ∈ rest,
        base.Live timer → CleanMove manager now base base.currentTick timer) ?_
      ⟨h.clearSlot wheel _, hmoves⟩).1
    rintro wheels timer rest ⟨hpunctual, hrest⟩
    exact ⟨hpunctual.settle hclock (hrest timer mem_cons_self)
      (cascadeTimer_cases now wheels timer), fun other hmem => hrest other (mem_cons_of_mem _ hmem)⟩
  exact h

theorem Punctual.cascades
    (hclock : base.startTime + base.currentTick * base.tickDuration ≤ now)
    (hlast : base.currentTick < last)
    (h : Punctual manager base now base.currentTick last [] wheels) :
    Punctual manager base now base.currentTick last [] (wheels.cascades now) := by
  have h2 : Punctual manager base now _ last [] (wheels.cascadeWheel2 now) :=
    h.cascadeWheel hclock hlast nofun
  have h3 : Punctual manager base now _ last [] ((wheels.cascadeWheel2 now).cascadeWheel3 now) :=
    h2.cascadeWheel hclock hlast nofun
  have h4 : Punctual manager base now _ last []
      (((wheels.cascadeWheel2 now).cascadeWheel3 now).cascadeWheel4 now) :=
    h3.cascadeWheel hclock hlast nofun
  exact h4.cascadeWheel hclock hlast nofun

theorem Punctual.processTimer (h : Punctual manager base now low last (timer :: rest) wheels)
    (hnear : timer.expireTime ≤ now + base.tickDuration) :
    Punctual manager base now low last rest (processTimer manager now wheels timer) := by
  cases manager with
  | timingWheel => exact h.fire hnear
  | threadSafe =>
  unfold TimerWheels.processTimer
  simp only
  split
  · exact h.fire hnear
  exact h.drop

/-- The slot of the first wheel holds only timers whose expire time is near, and the timers that are
left wait for later ticks. -/
theorem Punctual.processWheel1
    (hclock : base.startTime + base.currentTick * base.tickDuration +
      slack manager base.tickDuration ≤ now + base.tickDuration)
    (h : Punctual manager base now base.currentTick last [] wheels) :
    Punctual manager base now (base.currentTick + 1) last [] (wheels.processWheel1 manager now) := by
  have hslot : Wheel.wheel1.slot wheels.currentTick = Wheel.wheel1.slot base.currentTick := by
    rw [h.aligned.currentTick]
  have hcleared := h.clearSlot .wheel1 (Wheel.wheel1.slot wheels.currentTick)
  have hlater : Punctual manager base now (base.currentTick + 1) last
      (wheels.slotTimers .wheel1 (Wheel.wheel1.slot wheels.currentTick))
      (wheels.clearSlot .wheel1 (Wheel.wheel1.slot wheels.currentTick)) :=
    { hcleared with
      timely := fun entry hmem hwheel => by
        refine (hcleared.timely entry hmem hwheel).later fun heq => ?_
        exact (mem_clearSlot hmem).2 ⟨hwheel, heq.trans hslot.symm⟩ }
  have hnear : ∀ timer ∈ wheels.slotTimers .wheel1 (Wheel.wheel1.slot wheels.currentTick),
      timer.expireTime ≤ now + base.tickDuration := by
    intro timer hmem
    obtain ⟨entry, hentry, ⟨hwheel, heq⟩, rfl⟩ := exists_of_mem_slotTimers hmem
    have htimely := h.timely entry hentry hwheel
    rw [heq, hslot] at htimely
    exact htimely.near hclock
  refine (Lib.foldl_invariant (P := fun rest next =>
    Punctual manager base now (base.currentTick + 1) last rest next ∧ ∀ timer ∈ rest,
      timer.expireTime ≤ now + base.tickDuration) ?_ ⟨hlater, hnear⟩).1
  rintro wheels timer rest ⟨hpunctual, hrest⟩
  exact ⟨hpunctual.processTimer (hrest timer mem_cons_self),
    fun other hmem => hrest other (mem_cons_of_mem _ hmem)⟩

/-! ## Between the calls -/

structure InTime (manager : Manager) (now : Nat) (wheels : TimerWheels ι) : Prop where
  timely : ∀ entry ∈ wheels.entries, entry.wheel = .wheel1 →
    Timely manager now wheels.currentTick wheels entry.slot entry.timer
  size : wheels.size = wheels.entries.length
  fired : ∀ call ∈ wheels.fired, call.1.expireTime ≤ call.2 + wheels.tickDuration
  started : wheels.startTime ≤ now
  clock : wheels.startTime + wheels.currentTick * wheels.tickDuration ≤ now + wheels.tickDuration

omit [DecidableEq ι] in
theorem InTime.mono (hle : now ≤ later) (h : InTime manager now wheels) :
    InTime manager later wheels where
  __ := h
  timely entry hmem hwheel := (h.timely entry hmem hwheel).mono hle
  started := Nat.le_trans h.started hle
  clock := Nat.le_trans h.clock (Nat.add_le_add_right hle _)

omit [DecidableEq ι] in
theorem InTime.reset (h : InTime manager now wheels) (hempty : wheels.size = 0) :
    InTime manager now (wheels.reset now) where
  __ := h
  timely entry hmem := by
    have hents : (wheels.reset now).entries = [] :=
      eq_nil_of_length_eq_zero (h.size.symm.trans hempty)
    rw [hents] at hmem
    exact absurd hmem not_mem_nil
  started := Nat.le_refl now
  clock := by
    simp only [TimerWheels.reset]
    omega

/-! ### The loop of `tick` -/

omit [DecidableEq ι] in
theorem le_add_slack (manager : Manager) (tickDuration : Nat) :
    tickDuration ≤ slack manager tickDuration := by
  cases manager with
  | timingWheel => exact Nat.le_refl _
  | threadSafe => exact Nat.le_mul_of_pos_left _ Nat.two_pos

theorem InTime.advance (h : InTime manager now wheels)
    (hclock : wheels.startTime + wheels.currentTick * wheels.tickDuration +
      slack manager wheels.tickDuration ≤ now + wheels.tickDuration)
    (hlast : wheels.currentTick < last) (hmoves : CleanMoves manager now last wheels) :
    InTime manager now (wheels.advance manager now) ∧
    CleanMoves manager now last (wheels.advance manager now) := by
  have hslack := le_add_slack manager wheels.tickDuration
  have hstart : Punctual manager wheels now wheels.currentTick last [] wheels :=
    ⟨Aligned.refl wheels, fun _ hdone => hdone, h.timely, hmoves, h.size, h.fired⟩
  have hprocessed := (hstart.cascades (by omega) hlast).processWheel1 hclock
  have halign := hprocessed.aligned
  have hdur := halign.tickDuration
  have hstartTime := halign.startTime
  rw [advance_eq]
  constructor
  · exact {
      timely := fun entry hmem hwheel => by
        have htimely := hprocessed.timely entry hmem hwheel
        unfold Timely at htimely ⊢
        simp only [hdur, hstartTime]
        exact htimely
      size := hprocessed.size
      fired := fun call hmem => by
        have hfired := hprocessed.fired call hmem
        simp only [hdur]
        exact hfired
      started := by
        simp only [hstartTime]
        exact h.started
      clock := by
        simp only [hstartTime, hdur]
        rw [Nat.add_mul]
        omega }
  intro entry hmem hwheel hlive tick htick htick' hreached
  have hbefore : wheels.Live entry.timer := by
    refine ⟨?_, ?_⟩
    · rw [← Bool.not_eq_true]
      intro hdone
      exact Bool.noConfusion ((hprocessed.done _ hdone).symm.trans hlive.1)
    rw [← halign.cancelled]
    exact hlive.2
  have hmove := hprocessed.clean entry hmem hwheel hbefore tick
    (Nat.le_trans (Nat.le_succ _) htick) htick' hreached
  unfold CleanMove at hmove ⊢
  simp only [hdur, hstartTime]
  exact hmove

theorem InTime.advances (count : Nat) (h : InTime manager now wheels)
    (hclock : ∀ tick < wheels.currentTick + count, wheels.startTime + tick * wheels.tickDuration +
      slack manager wheels.tickDuration ≤ now + wheels.tickDuration)
    (hmoves : CleanMoves manager now (wheels.currentTick + count) wheels) :
    InTime manager now (wheels.advances manager now count) := by
  induction count generalizing wheels with
  | zero => exact h
  | succ count ih =>
  unfold TimerWheels.advances
  split
  · exact h
  have halign := advance_aligned manager now wheels
  have hcount : wheels.currentTick + (count + 1) =
      (wheels.advance manager now).currentTick + count := by
    rw [halign.currentTick]
    exact Nat.add_right_comm _ count 1
  obtain ⟨hnext, hmoves'⟩ := h.advance (hclock _ (by omega)) (by omega) hmoves
  rw [hcount] at hmoves' hclock
  refine ih hnext ?_ hmoves'
  rw [halign.startTime, halign.tickDuration]
  exact hclock

theorem InTime.loop {count : Nat} (h : InTime manager now wheels)
    (hcount : wheels.currentTick + count = loopEnd manager now wheels)
    (hmoves : CleanMoves manager now (loopEnd manager now wheels) wheels)
    (hnext : next = if (wheels.advances manager now count).size = 0 then
      (wheels.advances manager now count).reset now else wheels.advances manager now count) :
    InTime manager now next := by
  have hdiv := Nat.div_mul_le_self (now - wheels.startTime) wheels.tickDuration
  have hstarted := h.started
  have hclock : ∀ tick < wheels.currentTick + count, wheels.startTime +
      tick * wheels.tickDuration + slack manager wheels.tickDuration ≤
        now + wheels.tickDuration := by
    intro tick htick
    rw [hcount] at htick
    cases manager with
    | timingWheel =>
      have hmul := Nat.mul_le_mul_right wheels.tickDuration (Nat.le_of_lt_succ htick)
      simp only [slack]
      omega
    | threadSafe =>
    have hmul := Nat.mul_le_mul_right wheels.tickDuration (Nat.succ_le_of_lt htick)
    simp only [loopEnd, Nat.succ_mul] at hmul
    simp only [slack]
    omega
  rw [← hcount] at hmoves
  have hlast := h.advances count hclock hmoves
  split at hnext
  · next hempty =>
    rw [hnext]
    exact hlast.reset hempty
  rw [hnext]
  exact hlast

/-! ### Timers that are added -/

omit [DecidableEq ι] in
theorem InTime.handleTimeout (h : InTime manager now wheels)
    (hnear : timer.expireTime ≤ now + wheels.tickDuration) :
    InTime manager now (wheels.handleTimeout now timer) :=
  { h with
    fired := fun call hmem => by
      rcases List.mem_append.1 hmem with hold | hnew
      · exact h.fired call hold
      rw [List.mem_singleton.1 hnew]
      exact hnear }

omit [DecidableEq ι] in
theorem InTime.place (h : InTime manager now wheels) (hticks : 0 < ticks)
    (hdelay : timer.expireTime + wheels.tickDuration ≤
      now + ticks * wheels.tickDuration + slack manager wheels.tickDuration)
    (hadd : CleanAdd now wheels timer ticks) : InTime manager now
      { wheels.place timer ticks ((now - wheels.startTime) / wheels.tickDuration + ticks) with
        size := wheels.size + 1 } :=
  { h with
    timely := fun entry hmem hwheel => by
      rcases List.mem_append.1 hmem with hold | hnew
      · exact h.timely entry hold hwheel
      rw [List.mem_singleton.1 hnew] at hwheel ⊢
      have hturn := Wheel.forDelay_eq_wheel1.1 hwheel
      simp only [Wheel.forDelay_eq_wheel1.2 hturn]
      by_cases hnear : timer.expireTime ≤ now + wheels.tickDuration
      · exact .inl hnear
      have hbehind : wheels.currentTick ≤
          (now - wheels.startTime) / wheels.tickDuration + 1 := by
        rw [← Nat.add_div_right _ wheels.tickDuration_pos,
          Nat.le_div_iff_mul_le wheels.tickDuration_pos]
        have hclock := h.clock
        have hstarted := h.started
        omega
      have hexpire : timer.expireTime ≤ wheels.startTime +
          ((now - wheels.startTime) / wheels.tickDuration + ticks) * wheels.tickDuration +
          slack manager wheels.tickDuration := by
        have hdivmod := Nat.div_add_mod' (now - wheels.startTime) wheels.tickDuration
        have hmod := Nat.mod_lt (now - wheels.startTime) wheels.tickDuration_pos
        have hstarted := h.started
        rw [Nat.add_mul]
        omega
      exact .inr ⟨_, rfl, Nat.le_trans hbehind (Nat.add_le_add_left hticks _),
        hadd (Nat.not_le.1 hnear) hturn, hexpire⟩
    size := by
      have hsize := h.size
      simp only [TimerWheels.place, length_append, length_singleton]
      omega }

/-! ## The calls -/

theorem InTime.timingWheelPush (h : InTime .timingWheel now wheels)
    (hclean : CleanCall .timingWheel wheels now (.push timer)) :
    InTime .timingWheel now (TimingWheelTimerManager.push wheels timer now).2 := by
  -- empty wheels start at the time of the call, so that their tick is not behind
  obtain ⟨started, hstarted, hintime, hadd⟩ : ∃ started : TimerWheels ι,
      started = (if wheels.size = 0 then wheels.reset now else wheels) ∧
      InTime .timingWheel now started ∧
      CleanAdd now started timer
        ((timer.expireTime - now + started.tickDuration - 1) / started.tickDuration) := by
    refine ⟨_, rfl, ?_⟩
    split
    · next hempty =>
      refine ⟨h.reset hempty, fun _ hturn => ?_⟩
      simp only [TimerWheels.reset, Nat.sub_self, Nat.zero_div, Nat.zero_add]
      exact hturn
    next hne => exact ⟨h, hclean rfl hne⟩
  unfold TimingWheelTimerManager.push
  simp only [← hstarted]
  split
  · next hexpired => exact hintime.handleTimeout (Nat.le_add_right_of_le hexpired)
  next hlate =>
  have hpos := started.tickDuration_pos
  have hticks : 0 < (timer.expireTime - now + started.tickDuration - 1) / started.tickDuration :=
    Nat.div_pos (by omega) hpos
  have hdivmod := Nat.div_add_mod' (timer.expireTime - now + started.tickDuration - 1)
    started.tickDuration
  have hmod := Nat.mod_lt (timer.expireTime - now + started.tickDuration - 1) hpos
  split
  · exact hintime
  refine hintime.place hticks ?_ hadd
  simp only [slack]
  omega

theorem InTime.addTimerToWheel (h : InTime .threadSafe now wheels)
    (hadd : wheels.Live timer →
      CleanAdd now wheels timer ((timer.expireTime - now) / wheels.tickDuration)) :
    InTime .threadSafe now (ThreadSafeTimerManager.addTimerToWheel now
      ((now - wheels.startTime) / wheels.tickDuration) wheels timer) := by
  have hpos := wheels.tickDuration_pos
  unfold ThreadSafeTimerManager.addTimerToWheel
  split
  · exact h
  next hlive =>
  rw [Bool.not_eq_true, Bool.or_eq_false_iff] at hlive
  split
  · next hexpired => exact h.handleTimeout (Nat.le_add_right_of_le hexpired)
  simp only
  split
  · next hticks =>
    rw [Nat.div_eq_zero_iff] at hticks
    exact h.handleTimeout (by omega)
  next hlate hticks =>
  split
  · exact h
  refine h.place (Nat.pos_of_ne_zero hticks) ?_ (hadd hlive)
  have hdivmod := Nat.div_add_mod' (timer.expireTime - now) wheels.tickDuration
  have hmod := Nat.mod_lt (timer.expireTime - now) hpos
  simp only [slack]
  omega

theorem Live.of_handleTimeout (h : (wheels.handleTimeout now timer).Live other) :
    wheels.Live other := by
  refine ⟨?_, h.2⟩
  rw [← Bool.not_eq_true]
  intro hdone
  exact Bool.noConfusion ((done_handleTimeout hdone).symm.trans h.1)

theorem Live.of_addTimerToWheel
    (h : (ThreadSafeTimerManager.addTimerToWheel now tick wheels timer).Live other) :
    wheels.Live other := by
  unfold ThreadSafeTimerManager.addTimerToWheel at h
  simp only at h
  split at h
  · exact h
  split at h
  · exact h.of_handleTimeout
  split at h
  · exact h.of_handleTimeout
  split at h
  · exact h
  exact h

/-- A timer that is added to a higher wheel is too far ahead for the first one. -/
theorem CleanMoves.addTimerToWheel (h : CleanMoves manager now last wheels) (tick : Nat) :
    CleanMoves manager now last
      (ThreadSafeTimerManager.addTimerToWheel now tick wheels timer) := by
  unfold ThreadSafeTimerManager.addTimerToWheel
  split
  · exact h
  split
  · intro entry hmem hwheel hlive
    exact h entry hmem hwheel hlive.of_handleTimeout
  simp only
  split
  · intro entry hmem hwheel hlive
    exact h entry hmem hwheel hlive.of_handleTimeout
  split
  · exact h
  intro entry hmem hwheel hlive tick htick hlast hreached
  rcases List.mem_append.1 hmem with hold | hnew
  · exact h entry hold hwheel hlive tick htick hlast hreached
  rw [List.mem_singleton.1 hnew] at hwheel ⊢
  intro (hfar : now + wheels.tickDuration < timer.expireTime)
    (hnear : timer.expireTime < now + 256 * wheels.tickDuration)
  refine absurd (Wheel.forDelay_eq_wheel1.2 ?_) hwheel
  rw [Nat.div_lt_iff_lt_mul wheels.tickDuration_pos]
  omega

theorem InTime.processPendingTimers (h : InTime .threadSafe now wheels)
    (hadd : ∀ timer ∈ wheels.pendingQueue, wheels.Live timer →
      CleanAdd now wheels timer ((timer.expireTime - now) / wheels.tickDuration)) :
    InTime .threadSafe now (ThreadSafeTimerManager.processPendingTimers wheels now) := by
  have hstart : InTime .threadSafe now { wheels with
      pendingQueue := []
      pendingSize := wheels.pendingSize - wheels.pendingQueue.length } := { h with }
  refine (Lib.foldl_invariant (P := fun rest next => InTime .threadSafe now next ∧
    next.startTime = wheels.startTime ∧ next.tickDuration = wheels.tickDuration ∧
    ∀ timer ∈ rest, next.Live timer →
      CleanAdd now next timer ((timer.expireTime - now) / next.tickDuration)) ?_
    ⟨hstart, rfl, rfl, hadd⟩).1
  rintro next timer rest ⟨hintime, hstartTime, hdur, hrest⟩
  have halign := addTimerToWheel_aligned now
    ((now - wheels.startTime) / wheels.tickDuration) next timer
  have hnext := hintime.addTimerToWheel (hrest timer mem_cons_self)
  rw [hstartTime, hdur] at hnext
  refine ⟨hnext, halign.startTime.trans hstartTime, halign.tickDuration.trans hdur, ?_⟩
  intro other hmem hlive
  have hother := hrest other (mem_cons_of_mem _ hmem) hlive.of_addTimerToWheel
  unfold CleanAdd at hother ⊢
  rw [halign.startTime, halign.tickDuration, halign.currentTick]
  exact hother

theorem CleanMoves.processPendingTimers (h : CleanMoves manager now last wheels) :
    CleanMoves manager now last (ThreadSafeTimerManager.processPendingTimers wheels now) :=
  Lib.foldl_invariant (P := fun _ next => CleanMoves manager now last next)
    (fun _ _ _ hnext => hnext.addTimerToWheel _) h

theorem InTime.timingWheelTick (h : InTime .timingWheel now wheels)
    (hclean : CleanCall .timingWheel wheels now .tick) :
    InTime .timingWheel now (TimingWheelTimerManager.tick wheels now) := by
  unfold TimingWheelTimerManager.tick
  split
  · exact h
  simp only
  split
  · exact h
  next htarget =>
  refine h.loop ?_ (hclean.2 (Nat.not_le.1 htarget)) rfl
  simp only [loopEnd]
  omega

theorem InTime.threadSafeTick (h : InTime .threadSafe now wheels)
    (hclean : CleanCall .threadSafe wheels now .tick) :
    InTime .threadSafe now (ThreadSafeTimerManager.tick wheels now) := by
  have hadded := h.processPendingTimers (hclean.1 rfl)
  have halign : Aligned _ (ThreadSafeTimerManager.processPendingTimers wheels now) :=
    aligned_foldl (addTimerToWheel_aligned now _) wheels.pendingQueue
  have htarget : (now - (ThreadSafeTimerManager.processPendingTimers wheels now).startTime) /
      (ThreadSafeTimerManager.processPendingTimers wheels now).tickDuration =
      (now - wheels.startTime) / wheels.tickDuration := by
    rw [halign.startTime, halign.tickDuration]
  unfold ThreadSafeTimerManager.tick
  simp only
  split
  · exact hadded
  split
  · exact hadded
  next hlate =>
  rw [Nat.not_le, halign.currentTick, htarget] at hlate
  have hmoves := (hclean.2 hlate).processPendingTimers
  refine hadded.loop ?_ ?_ rfl
  · simp only [loopEnd, halign.currentTick, htarget]
    exact Nat.add_sub_cancel' (Nat.le_of_lt hlate)
  simp only [loopEnd] at hmoves ⊢
  rw [htarget]
  exact hmoves

/-- Unclean calls apart, no timer comes into too early a slot of the first wheel. -/
theorem InTime.call (h : InTime manager now wheels) {next : Call ι}
    (hclean : CleanCall manager wheels now next) : InTime manager now (wheels.call manager now next) := by
  cases next with
  | push timer =>
    cases manager with
    | timingWheel => exact h.timingWheelPush hclean
    | threadSafe => exact { h with }
  | tick =>
    cases manager with
    | timingWheel => exact h.timingWheelTick hclean
    | threadSafe => exact h.threadSafeTick hclean
  | cancel id => exact { h with }

/-! ## Runs -/

variable {tickDuration : Nat} {hpos : 0 < tickDuration} {pushed : List (Timer ι)}

omit [DecidableEq ι] in
theorem inTime_new (now : Nat) :
    InTime manager now (.new tickDuration hpos now : TimerWheels ι) where
  timely := nofun
  size := rfl
  fired := nofun
  started := Nat.le_refl now
  clock := by
    simp only [new]
    omega

theorem inTime_of_runs
    (hrun : Runs manager tickDuration hpos (CleanCall manager) pushed now wheels) :
    InTime manager now wheels := by
  induction hrun with
  | new now => exact inTime_new now
  | call next hrun hle hallowed ih => exact (ih.mono hle).call hallowed

/-- In every run of clean calls no timer is fired more than one tick duration before its expire
time. -/
theorem not_early_of_runs
    (hrun : Runs manager tickDuration hpos (CleanCall manager) pushed now wheels) :
    ∀ call ∈ wheels.fired, call.1.expireTime ≤ call.2 + tickDuration := by
  intro call hmem
  have hfired := (inTime_of_runs hrun).fired call hmem
  rw [tickDuration_of_runs hrun] at hfired
  exact hfired

theorem not_early_at_10 :
    let wheels := (TimerWheels.new 1 Nat.one_pos 0).call .timingWheel 0 (.push (⟨0, 10⟩ : Timer Nat))
    (⟨0, 10⟩, 10) ∈ (wheels.call .timingWheel 10 .tick).fired ∧
    ∀ call ∈ (wheels.call .timingWheel 10 .tick).fired, call.1.expireTime ≤ call.2 + 1 := by
  intro wheels
  have hpush : Runs .timingWheel 1 Nat.one_pos (CleanCall .timingWheel) [⟨0, 10⟩] 0 wheels :=
    .call (.push ⟨0, 10⟩) (.new 0) (Nat.le_refl 0) fun _ hne => absurd rfl hne
  have htick : Runs .timingWheel 1 Nat.one_pos (CleanCall .timingWheel) [⟨0, 10⟩] 10
      (wheels.call .timingWheel 10 .tick) := by
    refine .call .tick hpush (by decide) ⟨nofun, fun _ entry hmem hwheel => ?_⟩
    rw [List.mem_singleton.1 hmem] at hwheel
    exact absurd rfl hwheel
  exact ⟨by decide, not_early_of_runs htick⟩

/-- A timer is added while the tick of the wheels is one behind the clock, and is fired at once, 255
ticks early. -/
theorem fired_early_when_behind :
    (∃ wheels : TimerWheels Nat,
      Runs .threadSafe 1 Nat.one_pos (fun _ _ _ => True) [⟨0, 256⟩] 1 wheels ∧
      ∃ call ∈ wheels.fired, call.2 + 1 < call.1.expireTime) ∧
    (∃ wheels : TimerWheels Nat,
      Runs .timingWheel 1 Nat.one_pos (fun _ _ _ => True) [⟨1, 256⟩, ⟨0, 1000⟩] 1 wheels ∧
      ∃ call ∈ wheels.fired, call.2 + 1 < call.1.expireTime) := by
  constructor
  · refine ⟨_, .call .tick (.call (.push ⟨0, 256⟩) (.new 0) (Nat.zero_le 1) trivial)
      (Nat.le_refl 1) trivial, (⟨0, 256⟩, 1), ?_, ?_⟩
    · decide
    · decide
  refine ⟨_, .call .tick (.call (.push ⟨1, 256⟩)
    (.call (.push ⟨0, 1000⟩) (.new 0) (Nat.le_refl 0) trivial) (Nat.zero_le 1) trivial)
    (Nat.le_refl 1) trivial, (⟨1, 256⟩, 1), ?_, ?_⟩
  · decide
  · decide

end Galay.Kernel.TimerWheels
