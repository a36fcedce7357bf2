import Galay.Lib.Run
import Galay.Kernel.TimerWheels

/-!
# Where a timer is in the wheels

A timer that is placed for a tick is in a slot that the wheel reaches at that tick or before, and
after the tick at which it is placed. So every timer that is held has a tick of its own ahead.
-/

namespace Galay.Kernel

variable {ι : Type*}

namespace Wheel

/-- The tick at which the slot for a tick is reached. -/
def visit (wheel : Wheel) (tick : Nat) : Nat := tick / 2 ^ wheel.shift * 2 ^ wheel.shift

section

variable (wheel : Wheel) (tick : Nat)
include wheel tick

theorem visit_le : wheel.visit tick ≤ tick := Nat.div_mul_le_self ..

theorem slot_eq :
    wheel.slot tick = tick / 2 ^ wheel.shift % wheel.slots := by
  unfold slot
  rw [Nat.shiftRight_eq_div_pow]

theorem slot_visit :
    wheel.slot (wheel.visit tick) = wheel.slot tick := by
  rw [slot_eq, slot_eq, visit, Nat.mul_div_cancel _ (Nat.two_pow_pos _)]

theorem visit_mod : wheel.visit tick % 2 ^ wheel.shift = 0 :=
  Nat.mul_mod_left ..

end

/-- The slot of a timer placed for a delay is reached after the tick that the delay starts from. -/
theorem lt_visit_forDelay (h : 0 < ticks) (tick : Nat) :
    tick < (forDelay ticks).visit (tick + ticks) := by
  have hspan : 2 ^ (forDelay ticks).shift ≤ ticks := by
    unfold forDelay
    split
    · exact h
    split
    · exact Nat.le_of_not_lt ‹_›
    split
    · exact Nat.le_of_not_lt ‹_›
    split
    · exact Nat.le_of_not_lt ‹_›
    exact Nat.le_of_not_lt ‹_›
  have hdivmod := Nat.div_add_mod' (tick + ticks) (2 ^ (forDelay ticks).shift)
  have hmod := Nat.mod_lt (tick + ticks) (Nat.two_pow_pos (forDelay ticks).shift)
  unfold visit
  omega

end Wheel

namespace TimerWheels

variable [DecidableEq ι] {wheels next : TimerWheels ι} {now : Nat} {timer : Timer ι}

/-! ## What the steps of a call leave alone -/

/-- The wheels are at the same tick of the same time. -/
structure Aligned (wheels next : TimerWheels ι) : Prop where
  tickDuration : next.tickDuration = wheels.tickDuration
  startTime : next.startTime = wheels.startTime
  currentTick : next.currentTick = wheels.currentTick
  pendingQueue : next.pendingQueue = wheels.pendingQueue
  pendingSize : next.pendingSize = wheels.pendingSize
  cancelled : next.cancelled = wheels.cancelled

omit [DecidableEq ι] in
theorem Aligned.refl (wheels : TimerWheels ι) : Aligned wheels wheels :=
  ⟨rfl, rfl, rfl, rfl, rfl, rfl⟩

omit [DecidableEq ι] in
theorem Aligned.trans (h : Aligned wheels next) (h' : Aligned next last) : Aligned wheels last :=
  ⟨h'.tickDuration.trans h.tickDuration, h'.startTime.trans h.startTime,
    h'.currentTick.trans h.currentTick, h'.pendingQueue.trans h.pendingQueue,
    h'.pendingSize.trans h.pendingSize, h'.cancelled.trans h.cancelled⟩

/-- What can become of a timer that is taken out of its slot. -/
inductive Settles (now : Nat) (wheels : TimerWheels ι) (timer : Timer ι) : TimerWheels ι → Prop
  | drop (h : (wheels.done timer = true ∨ wheels.cancelled timer.id = true) ∨
      now + wheel5Span * wheels.tickDuration ≤ timer.expireTime) :
    Settles now wheels timer { wheels with size := wheels.size - 1 }
  | fire (h : timer.expireTime < now + wheels.tickDuration) :
    Settles now wheels timer { wheels.handleTimeout now timer with size := wheels.size - 1 }
  | replace (hlive : wheels.done timer = false ∧ wheels.cancelled timer.id = false)
    (hticks : 0 < (timer.expireTime - now) / wheels.tickDuration) :
    Settles now wheels timer (wheels.place timer ((timer.expireTime - now) / wheels.tickDuration)
      (wheels.currentTick + (timer.expireTime - now) / wheels.tickDuration))

theorem cascadeTimer_cases (now : Nat) (wheels : TimerWheels ι) (timer : Timer ι) :
    Settles now wheels timer (cascadeTimer now wheels timer) := by
  have hpos := wheels.tickDuration_pos
  unfold cascadeTimer
  split
  · next h =>
    rw [Bool.or_eq_true] at h
    exact .drop (.inl h)
  next hlive =>
  rw [Bool.not_eq_true, Bool.or_eq_false_iff] at hlive
  split
  · next h => exact .fire (by omega)
  simp only
  split
  · next hlate hticks =>
    rw [Nat.div_eq_zero_iff] at hticks
    exact .fire (by omega)
  split
  · next hticks hspan => exact .replace hlive (Nat.pos_of_ne_zero hticks)
  next hlate _ hspan =>
  rw [Nat.not_lt, Nat.le_div_iff_mul_le hpos] at hspan
  exact .drop (.inr (by omega))

theorem cascadeTimer_aligned (now : Nat) (wheels : TimerWheels ι) (timer : Timer ι) :
    Aligned wheels (cascadeTimer now wheels timer) := by
  unfold cascadeTimer
  simp only
  split
  · exact ⟨rfl, rfl, rfl, rfl, rfl, rfl⟩
  split
  · exact ⟨rfl, rfl, rfl, rfl, rfl, rfl⟩
  split
  · exact ⟨rfl, rfl, rfl, rfl, rfl, rfl⟩
  split <;> exact ⟨rfl, rfl, rfl, rfl, rfl, rfl⟩

theorem processTimer_aligned (manager : Manager) (now : Nat) (wheels : TimerWheels ι)
    (timer : Timer ι) : Aligned wheels (processTimer manager now wheels timer) := by
  cases manager with
  | timingWheel => exact ⟨rfl, rfl, rfl, rfl, rfl, rfl⟩
  | threadSafe =>
  unfold processTimer
  simp only
  split <;> exact ⟨rfl, rfl, rfl, rfl, rfl, rfl⟩

theorem aligned_foldl
    (hf : ∀ wheels timer, Aligned wheels (f wheels timer)) (timers : List (Timer ι)) :
    Aligned wheels (timers.foldl f wheels) :=
  Lib.foldl_invariant (P := fun _ next => Aligned wheels next)
    (fun next timer _ h => h.trans (hf next timer)) (Aligned.refl wheels)

omit [DecidableEq ι] in
theorem clearSlot_aligned (wheels : TimerWheels ι) (wheel : Wheel) (slot : Nat) :
    Aligned wheels (wheels.clearSlot wheel slot) :=
  ⟨rfl, rfl, rfl, rfl, rfl, rfl⟩

theorem cascadeWheel_aligned (now : Nat) (wheels : TimerWheels ι) (wheel : Wheel) :
    Aligned wheels (wheels.cascadeWheel now wheel) := by
  unfold cascadeWheel cascadeSlot
  split
  · have hclear := wheels.clearSlot_aligned wheel (wheel.slot wheels.currentTick)
    exact hclear.trans (aligned_foldl (cascadeTimer_aligned now) _)
  exact Aligned.refl wheels

theorem processWheel1_aligned (manager : Manager) (now : Nat) (wheels : TimerWheels ι) :
    Aligned wheels (wheels.processWheel1 manager now) := by
  have hclear := wheels.clearSlot_aligned .wheel1 (Wheel.wheel1.slot wheels.currentTick)
  exact hclear.trans (aligned_foldl (processTimer_aligned manager now) _)

/-- The wheels after the cascades of one tick. -/
def cascades (now : Nat) (wheels : TimerWheels ι) : TimerWheels ι :=
  (((wheels.cascadeWheel2 now).cascadeWheel3 now).cascadeWheel4 now).cascadeWheel5 now

theorem cascades_aligned (now : Nat) (wheels : TimerWheels ι) :
    Aligned wheels (wheels.cascades now) :=
  (((cascadeWheel_aligned now wheels .wheel2).trans (cascadeWheel_aligned now _ .wheel3)).trans
    (cascadeWheel_aligned now _ .wheel4)).trans (cascadeWheel_aligned now _ .wheel5)

theorem advance_eq (manager : Manager) (now : Nat) (wheels : TimerWheels ι) :
    wheels.advance manager now =
      { (wheels.cascades now).processWheel1 manager now with
        currentTick := wheels.currentTick + 1 } := by
  have halign := (cascades_aligned now wheels).trans (processWheel1_aligned manager now _)
  rw [← halign.currentTick]
  rfl

end TimerWheels

end Galay.Kernel
