import Mathlib.Algebra.Group.Nat.Defs
import Mathlib.Data.List.Basic

/-!
# The timer managers (`galay-kernel/common/timer_manager.hpp`, `timer_manager_mt.hpp`)

`TimingWheelTimerManager` and `ThreadSafeTimerManager` over one set of wheels. Times are
nanoseconds, and a call reads the clock once. The slots are kept as one list of timers with the
wheel and the slot that they are in, oldest first, so that a slot is a part of that list. The calls
of `handleTimeout` are recorded with the time at which they are made.
-/

namespace Galay.Kernel

structure Timer (ι : Type*) where
  id : ι
  expireTime : Nat
  deriving DecidableEq, Repr

inductive Wheel
  | wheel1
  | wheel2
  | wheel3
  | wheel4
  | wheel5
  deriving DecidableEq, Repr

namespace Wheel

/-- How many bits of a tick the slots of the wheel leave out. -/
def shift : Wheel → Nat
  | .wheel1 => 0
  | .wheel2 => 8
  | .wheel3 => 14
  | .wheel4 => 20
  | .wheel5 => 26

def slots : Wheel → Nat
  | .wheel1 => 256
  | _ => 64

/-- The slot for a tick. -/
def slot (wheel : Wheel) (tick : Nat) : Nat := (tick >>> wheel.shift) % wheel.slots

/-- The wheel for a delay in ticks. -/
def forDelay (ticks : Nat) : Wheel :=
  if ticks < 2 ^ 8 then .wheel1
  else if ticks < 2 ^ 14 then .wheel2
  else if ticks < 2 ^ 20 then .wheel3
  else if ticks < 2 ^ 26 then .wheel4
  else .wheel5

end Wheel

/-- `WHEEL5_SPAN`. -/
def wheel5Span : Nat := 2 ^ 32

/-- A timer in its slot. -/
structure TimerEntry (ι : Type*) where
  wheel : Wheel
  slot : Nat
  timer : Timer ι
  deriving DecidableEq, Repr

structure TimerWheels (ι : Type*) where
  tickDuration : Nat
  tickDuration_pos : 0 < tickDuration
  startTime : Nat
  currentTick : Nat := 0
  entries : List (TimerEntry ι) := []
  size : Nat := 0
  pendingQueue : List (Timer ι) := []
  pendingSize : Nat := 0
  cancelled : ι → Bool := fun _ => false
  /-- The calls of `handleTimeout`. -/
  fired : List (Timer ι × Nat) := []

namespace TimerWheels

variable {ι : Type*} [DecidableEq ι]

/-! ## Both managers -/

section Shared

variable (now : Nat) (wheels : TimerWheels ι)

variable (timer : Timer ι)

def handleTimeout : TimerWheels ι :=
  { wheels with fired := wheels.fired ++ [(timer, now)] }

def done : Bool := wheels.fired.any fun call => call.1.id = timer.id

/-- `push_back` into the slot for a tick. -/
def place (ticks absoluteTick : Nat) : TimerWheels ι :=
  let wheel := Wheel.forDelay ticks
  { wheels with entries := wheels.entries ++ [⟨wheel, wheel.slot absoluteTick, timer⟩] }

variable (wheel : Wheel)

def slotTimers (slot : Nat) : List (Timer ι) :=
  (wheels.entries.filter fun entry => entry.wheel = wheel ∧ entry.slot = slot).map (·.timer)

def clearSlot (slot : Nat) : TimerWheels ι :=
  { wheels with
    entries := wheels.entries.filter fun entry => ¬ (entry.wheel = wheel ∧ entry.slot = slot) }

/-- The turn of one timer in `cascadeSlot`. -/
def cascadeTimer (wheels : TimerWheels ι) (timer : Timer ι) : TimerWheels ι :=
  if wheels.done timer || wheels.cancelled timer.id then { wheels with size := wheels.size - 1 }
  else if timer.expireTime ≤ now then
    { wheels.handleTimeout now timer with size := wheels.size - 1 }
  else
    let remainingTicks := (timer.expireTime - now) / wheels.tickDuration
    if remainingTicks = 0 then { wheels.handleTimeout now timer with size := wheels.size - 1 }
    else if remainingTicks < wheel5Span then
      wheels.place timer remainingTicks (wheels.currentTick + remainingTicks)
    else { wheels with size := wheels.size - 1 }

def cascadeSlot : TimerWheels ι :=
  let slot := wheel.slot wheels.currentTick
  (wheels.slotTimers wheel slot).foldl (cascadeTimer now) (wheels.clearSlot wheel slot)

/-- The turn of a higher wheel in `tick`, at the multiples of its slots' span. -/
def cascadeWheel : TimerWheels ι :=
  if wheels.currentTick % 2 ^ wheel.shift = 0 ∧ 0 < wheels.currentTick then
    wheels.cascadeSlot now wheel
  else wheels

def cascadeWheel2 : TimerWheels ι := wheels.cascadeWheel now .wheel2

def cascadeWheel3 : TimerWheels ι := wheels.cascadeWheel now .wheel3

def cascadeWheel4 : TimerWheels ι := wheels.cascadeWheel now .wheel4

def cascadeWheel5 : TimerWheels ι := wheels.cascadeWheel now .wheel5

def reset : TimerWheels ι := { wheels with startTime := now, currentTick := 0 }

end Shared

/-- The two managers. -/
inductive Manager
  | timingWheel
  | threadSafe
  deriving DecidableEq, Repr

section Tick

variable (manager : Manager) (now : Nat)

variable (wheels : TimerWheels ι)

/-- The turn of one timer in `processWheel1`; only one of the managers looks at its flags. -/
def processTimer (timer : Timer ι) : TimerWheels ι :=
  match manager with
  | .timingWheel => { wheels.handleTimeout now timer with size := wheels.size - 1 }
  | .threadSafe =>
    if !wheels.done timer && !wheels.cancelled timer.id then
      { wheels.handleTimeout now timer with size := wheels.size - 1 }
    else { wheels with size := wheels.size - 1 }

def processWheel1 : TimerWheels ι :=
  let slot := Wheel.wheel1.slot wheels.currentTick
  (wheels.slotTimers .wheel1 slot).foldl (processTimer manager now) (wheels.clearSlot .wheel1 slot)

/-- The body of the loop of `tick`. -/
def advance : TimerWheels ι :=
  let wheels := ((((wheels.cascadeWheel2 now).cascadeWheel3 now).cascadeWheel4 now).cascadeWheel5
    now).processWheel1 manager now
  { wheels with currentTick := wheels.currentTick + 1 }

/-- The loop of `tick`, which also ends when no timer is left. -/
def advances : (count : Nat) → TimerWheels ι → TimerWheels ι
  | 0, wheels => wheels
  | count + 1, wheels =>
    if wheels.size = 0 then wheels else advances count (wheels.advance manager now)

end Tick

end TimerWheels

/-! ## The managers -/

open TimerWheels

variable {ι : Type*} [DecidableEq ι]

namespace TimingWheelTimerManager

/-- The answer tells whether the timer was accepted. -/
def push (wheels : TimerWheels ι) (timer : Timer ι) (now : Nat) : Bool × TimerWheels ι :=
  let wheels := if wheels.size = 0 then wheels.reset now else wheels
  if timer.expireTime ≤ now then (true, wheels.handleTimeout now timer)
  else
    let remaining := timer.expireTime - now
    let delayTicks := (remaining + wheels.tickDuration - 1) / wheels.tickDuration
    let currentTickFromStart := (now - wheels.startTime) / wheels.tickDuration
    let absoluteTick := currentTickFromStart + delayTicks
    if wheel5Span ≤ delayTicks then (false, wheels)
    else (true, { wheels.place timer delayTicks absoluteTick with size := wheels.size + 1 })

def tick (wheels : TimerWheels ι) (now : Nat) : TimerWheels ι :=
  if wheels.size = 0 then wheels
  else
    let targetTick := (now - wheels.startTime) / wheels.tickDuration
    if targetTick ≤ wheels.currentTick then wheels
    else
      let wheels := wheels.advances .timingWheel now (targetTick + 1 - wheels.currentTick)
      if wheels.size = 0 then wheels.reset now else wheels

end TimingWheelTimerManager

namespace ThreadSafeTimerManager

variable (wheels : TimerWheels ι)

def push (timer : Timer ι) : Bool × TimerWheels ι :=
  (true, { wheels with
    pendingQueue := wheels.pendingQueue ++ [timer]
    pendingSize := wheels.pendingSize + 1 })

def addTimerToWheel (now currentTickFromStart : Nat) (wheels : TimerWheels ι) (timer : Timer ι) :
    TimerWheels ι :=
  if wheels.done timer || wheels.cancelled timer.id then wheels
  else if timer.expireTime ≤ now then wheels.handleTimeout now timer
  else
    let delayTicks := (timer.expireTime - now) / wheels.tickDuration
    if delayTicks = 0 then wheels.handleTimeout now timer
    else if wheel5Span ≤ delayTicks then wheels
    else
      { wheels.place timer delayTicks (currentTickFromStart + delayTicks) with
        size := wheels.size + 1 }

/-- All batches together: the queue is empty when the loop ends. -/
def processPendingTimers (now : Nat) : TimerWheels ι :=
  wheels.pendingQueue.foldl
    (addTimerToWheel now ((now - wheels.startTime) / wheels.tickDuration))
    { wheels with
      pendingQueue := []
      pendingSize := wheels.pendingSize - wheels.pendingQueue.length }

def tick (now : Nat) : TimerWheels ι :=
  let wheels := processPendingTimers wheels now
  if wheels.size = 0 then wheels
  else
    let targetTick := (now - wheels.startTime) / wheels.tickDuration
    if targetTick ≤ wheels.currentTick then wheels
    else
      let wheels := wheels.advances .threadSafe now (targetTick - wheels.currentTick)
      if wheels.size = 0 then wheels.reset now else wheels

end ThreadSafeTimerManager

namespace TimerWheels

/-- A manager made at a time. -/
def new (tickDuration : Nat) (tickDuration_pos : 0 < tickDuration) (now : Nat) : TimerWheels ι where
  tickDuration
  tickDuration_pos
  startTime := now

namespace Manager

def push (manager : Manager) (wheels : TimerWheels ι) (timer : Timer ι) (now : Nat) :
    Bool × TimerWheels ι :=
  match manager with
  | .timingWheel => TimingWheelTimerManager.push wheels timer now
  | .threadSafe => ThreadSafeTimerManager.push wheels timer

def tick (manager : Manager) (wheels : TimerWheels ι) (now : Nat) : TimerWheels ι :=
  match manager with
  | .timingWheel => TimingWheelTimerManager.tick wheels now
  | .threadSafe => ThreadSafeTimerManager.tick wheels now

/-- `size()`. -/
def count (manager : Manager) (wheels : TimerWheels ι) : Nat :=
  match manager with
  | .timingWheel => wheels.size
  | .threadSafe => wheels.size + wheels.pendingSize

end Manager

/-! ## Runs -/

inductive Call (ι : Type*)
  | push (timer : Timer ι)
  | tick
  | cancel (id : ι)
  deriving DecidableEq, Repr

/-- The timers that a call pushes. -/
def Call.pushes : Call ι → List (Timer ι)
  | .push timer => [timer]
  | _ => []

def call (manager : Manager) (wheels : TimerWheels ι) (now : Nat) : Call ι → TimerWheels ι
  | .push timer => (manager.push wheels timer now).2
  | .tick => manager.tick wheels now
  | .cancel id => { wheels with cancelled := Function.update wheels.cancelled id true }

/-- The manager has come to the state at a time, with the timers pushed, by calls at clock readings
that never go back and that are all allowed. -/
inductive Runs (manager : Manager) (tickDuration : Nat) (hpos : 0 < tickDuration)
    (Allowed : TimerWheels ι → Nat → Call ι → Prop) :
    List (Timer ι) → Nat → TimerWheels ι → Prop
  | new (now : Nat) : Runs manager tickDuration hpos Allowed [] now (.new tickDuration hpos now)
  | call {pushed : List (Timer ι)} {now later : Nat} {wheels : TimerWheels ι} (next : Call ι)
    (hrun : Runs manager tickDuration hpos Allowed pushed now wheels) (hle : now ≤ later)
    (hallowed : Allowed wheels later next) :
    Runs manager tickDuration hpos Allowed (next.pushes ++ pushed) later
      (wheels.call manager later next)

end TimerWheels

end Galay.Kernel
