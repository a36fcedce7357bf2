import Galay.Lib.Run
import Mathlib.Data.Nat.Bitwise
import Mathlib.Data.Nat.Log
import Mathlib.Data.Nat.ModEq

/-!
# The bounded channel (`galay-kernel/concurrency/mpmc/bounded_channel.h`)

The ring of `BoundedChannel<T>`, with the threads `τ` that are inside of `trySend` and `tryRecv`,
one atomic operation at a time. What is read is tested in the same step; an object is built in its
slot, or taken out of it, with the store of the sequence that comes after it. A weak
compare-exchange may fail without a reason.
-/

namespace Galay.Kernel.BoundedChannel

open Function (update update_self update_of_ne update_eq_self forall_update_iff)
open List
open UInt64 (toNat_add toNat_inj toNat_one)

def kTailClosedBit : UInt64 := (1 : UInt64) <<< 63

def kTailPositionMask : UInt64 := kTailClosedBit - 1

def kMaxRingCapacity : Nat := 2 ^ 62

/-- `std::bit_ceil` takes the next power of two. -/
def normalizeCapacity (capacity : Nat) : Nat :=
  if capacity ≤ 2 then 2
  else if capacity ≥ kMaxRingCapacity then kMaxRingCapacity
  else 2 ^ Nat.clog 2 capacity

structure Slot (T : Type*) where
  storage : Option T
  sequence : UInt64
  deriving DecidableEq

inductive RingEnqueueResult
  | kSent | kFull | kClosed | kClosedAndNotify
  deriving DecidableEq

/-- Where a thread is. -/
inductive Pc (T : Type*)
  | idle
  -- `ringEnqueueResult`
  | enqueue (value : T)
  /-- At the head of the loop, with the tail that it knows. -/
  | enqueueAt (value : T) (tail : UInt64)
  | reserving (value : T) (position : UInt64)
  | reserved (value : T) (position : UInt64)
  | enqueued (result : RingEnqueueResult)
  -- `ringDequeueTo`
  | dequeue
  | dequeueAt (position : UInt64)
  | claiming (position : UInt64)
  | claimed (position : UInt64)
  | dequeued (value : Option T)

def Pc.atRest {T : Type*} : Pc T → Bool
  | .idle | .enqueued _ | .dequeued _ => true
  | _ => false

structure State (T τ : Type*) where
  capacity : UInt64
  tail : UInt64 := 0
  head : UInt64 := 0
  slots : Nat → Slot T
  threads : τ → Pc T := fun _ => .idle
  /-- The values in the order of their reservations. -/
  accepted : List T := []
  /-- What `consume` has been given for a position. -/
  delivered : UInt64 → List T := fun _ => []

inductive Action (T : Type*)
  | trySend (value : T)
  | tryRecv
  | close
  /-- The next operation of the thread. -/
  | advance (spurious : Bool)

namespace State

variable {T τ : Type*} [DecidableEq τ]

def start (capacity : Nat) : State T τ :=
  { capacity := .ofNat (normalizeCapacity capacity), slots := fun i => ⟨none, .ofNat i⟩ }

variable (s : State T τ) (t : τ)

def index (position : UInt64) : Nat := (position &&& (s.capacity - 1)).toNat

def goto (pc : Pc T) : State T τ := { s with threads := update s.threads t pc }

def setSlot (position : UInt64) (slot : Slot T) : State T τ :=
  { s with slots := update s.slots (s.index position) slot }

def advance (spurious : Bool) : Option (State T τ) :=
  match s.threads t with
  | .enqueue value => some (s.goto t (.enqueueAt value s.tail))
  | .enqueueAt value tail =>
    if tail &&& kTailClosedBit ≠ 0 then some (s.goto t (.enqueued .kClosed))
    else if tail = kTailPositionMask then
      if s.tail = tail ∧ !spurious then
        some ({ s with tail := tail ||| kTailClosedBit }.goto t (.enqueued .kClosedAndNotify))
      else some (s.goto t (.enqueueAt value s.tail))
    else
      let difference := ((s.slots (s.index tail)).sequence - tail).toInt64
      some (s.goto t (if difference = 0 then .reserving value tail
        else if difference < 0 then .enqueued .kFull else .enqueue value))
  | .reserving value position =>
    if s.tail = position ∧ !spurious then
      some ({ s with tail := position + 1, accepted := s.accepted ++ [value] }.goto t
        (.reserved value position))
    else some (s.goto t (.enqueueAt value s.tail))
  | .reserved value position =>
    some ((s.setSlot position ⟨some value, position + 1⟩).goto t (.enqueued .kSent))
  | .dequeue => some (s.goto t (.dequeueAt s.head))
  | .dequeueAt position =>
    let difference := ((s.slots (s.index position)).sequence - (position + 1)).toInt64
    some (s.goto t (if difference = 0 then .claiming position
      else if difference < 0 then .dequeued none else .dequeue))
  | .claiming position =>
    if s.head = position ∧ !spurious then
      some ({ s with head := position + 1 }.goto t (.claimed position))
    else some (s.goto t (.dequeueAt s.head))
  | .claimed position =>
    -- a slot without an object cannot be read
    (s.slots (s.index position)).storage.map fun value =>
      let delivered := update s.delivered position (s.delivered position ++ [value])
      ({ s with delivered }.setSlot position ⟨none, position + s.capacity⟩).goto t
        (.dequeued (some value))
  | _ => none

/-- The state after a step, where the step can be made. -/
def step : Action T → Option (State T τ)
  | .advance spurious => s.advance t spurious
  | action =>
    if (s.threads t).atRest then
      some (match action with
        | .trySend value => s.goto t (.enqueue value)
        | .tryRecv => s.goto t .dequeue
        | _ => { s with tail := s.tail ||| kTailClosedBit })
    else none

def isClosed : Bool := s.tail &&& kTailClosedBit ≠ 0

/-- The head is read after the tail. -/
def isClosedAndDrained (tail head : UInt64) : Bool :=
  tail &&& kTailClosedBit ≠ 0 ∧ tail &&& kTailPositionMask = head

/-- Steps of the threads in any order. -/
def run (steps : List (τ × Action T)) : Option (State T τ) :=
  steps.foldlM (fun s step => s.step step.1 step.2) s

end State

/-! ## Positions -/

theorem closed_iff {tail : UInt64} : tail &&& kTailClosedBit ≠ 0 ↔ 2 ^ 63 ≤ tail.toNat := by
  have hlt := tail.toNat_lt
  have hand : (tail &&& kTailClosedBit).toNat = (tail.toNat.testBit 63).toNat * 2 ^ 63 :=
    (UInt64.toNat_and ..).trans (Nat.and_two_pow _ 63)
  rw [Nat.toNat_testBit] at hand
  rw [Ne, ← toNat_inj, hand, UInt64.toNat_zero]
  omega

theorem eq_of_difference {a b : UInt64} (h : (a - b).toInt64 = 0) : a = b := by
  have hsub : a - b = 0 := by rw [← UInt64.toUInt64_toInt64 (a - b), h]; rfl
  rw [← UInt64.sub_add_cancel a b, hsub, UInt64.zero_add]

theorem normalizeCapacity_eq (capacity : Nat) :
    ∃ k, 1 ≤ k ∧ k ≤ 62 ∧ normalizeCapacity capacity = 2 ^ k := by
  rw [normalizeCapacity, kMaxRingCapacity]
  split
  · exact ⟨1, le_rfl, by decide, rfl⟩
  split
  · exact ⟨62, by decide, le_rfl, rfl⟩
  exact ⟨_, Nat.clog_pos (by decide) (by omega), (Nat.clog_le_iff_le_pow (by decide)).2 (by omega),
    rfl⟩

theorem eq_of_mod {p q n : Nat} (h : p % n = q % n) (hp : p < q + n) (hq : q < p + n) : p = q :=
  Nat.ModEq.eq_of_abs_lt h (abs_lt.2 (by omega))

/-! ## What holds between two steps -/

/-- The slot of an accepted position, until the position a round later is reserved. -/
inductive SlotOk {T : Type*} (head : Nat) (capacity : UInt64) (value : Option T) (p : UInt64) :
    Slot T → Prop
  | reserved (h : head ≤ p.toNat) : SlotOk head capacity value p ⟨none, p⟩
  | published : SlotOk head capacity value p ⟨value, p + 1⟩
  | released (h : p.toNat < head) : SlotOk head capacity value p ⟨none, p + capacity⟩

/-- The position that a thread has reserved or claimed. -/
def Pc.owns {T : Type*} : Pc T → Option UInt64
  | .reserved _ p | .claimed p => some p
  | _ => none

namespace State

variable {T τ : Type*} {k : Nat} {s s' : State T τ} {t : τ} {p : UInt64} {pc : Pc T} {value : T}

section

variable (k) (s)

def slotAt (p : UInt64) : Slot T := s.slots (p.toNat % 2 ^ k)

/-- Nobody has published an owned position, or nobody has released it. -/
def Owned (p : UInt64) : Prop :=
  p.toNat < s.accepted.length ∧ s.accepted.length ≤ p.toNat + 2 ^ k ∧
    (s.slotAt k p).sequence = if s.head.toNat ≤ p.toNat then p else p + 1

/-- What a thread knows. A sequence that it has read can only have grown. -/
def PcOk : Pc T → Prop
  | .reserving _ p => p.toNat < 2 ^ 63 - 1 ∧ p.toNat ≤ (s.slotAt k p).sequence.toNat
  | .reserved value p =>
    s.Owned k p ∧ s.head.toNat ≤ p.toNat ∧ s.accepted[p.toNat]? = some value
  | .dequeueAt p => p.toNat ≤ s.head.toNat
  | .claiming p => p.toNat < (s.slotAt k p).sequence.toNat
  | .claimed p => s.Owned k p ∧ p.toNat < s.head.toNat
  | _ => True

structure Inv : Prop where
  two_le : 2 ≤ 2 ^ k
  small : 2 ^ k ≤ 2 ^ 62
  capacity : s.capacity.toNat = 2 ^ k
  tail : s.tail.toNat % 2 ^ 63 = s.accepted.length
  order : s.head.toNat ≤ s.accepted.length
  fits : s.accepted.length ≤ s.head.toNat + 2 ^ k
  slots : ∀ p : UInt64, p.toNat < s.accepted.length → s.accepted.length ≤ p.toNat + 2 ^ k →
    SlotOk s.head.toNat s.capacity s.accepted[p.toNat]? p (s.slotAt k p)
  vacant : ∀ p : UInt64, p.toNat < 2 ^ k → s.accepted.length ≤ p.toNat → s.slotAt k p = ⟨none, p⟩
  threads : ∀ t, s.PcOk k (s.threads t)
  owners : ∀ p, s.Owned k p → ∃! t, (s.threads t).owns = some p
  delivered : ∀ p, p.toNat < s.head.toNat → ¬s.Owned k p →
    s.delivered p = s.accepted[p.toNat]?.toList
  held : ∀ p, (p.toNat < s.head.toNat → s.Owned k p) → s.delivered p = []

end

theorem PcOk.mono (h : s.PcOk k pc)
    (hseq : ∀ p, (s.slotAt k p).sequence.toNat ≤ (s'.slotAt k p).sequence.toNat)
    (haccepted : s.accepted <+: s'.accepted) (hhead : s.head.toNat ≤ s'.head.toNat)
    (howned : ∀ p, pc.owns = some p → s.Owned k p →
      s'.Owned k p ∧ (s.head.toNat ≤ p.toNat → s'.head.toNat ≤ p.toNat)) : s'.PcOk k pc := by
  cases pc with
  | reserving value p => exact ⟨h.1, Nat.le_trans h.2 (hseq p)⟩
  | reserved value p =>
    obtain ⟨rest, hrest⟩ := haccepted
    obtain ⟨hown, hside⟩ := howned p rfl h.1
    refine ⟨hown, hside h.2.1, ?_⟩
    rw [← hrest, getElem?_append_left h.1.1]
    exact h.2.2
  | dequeueAt p => exact Nat.le_trans h hhead
  | claiming p => exact Nat.lt_of_lt_of_le h (hseq p)
  | claimed p => exact ⟨(howned p rfl h.1).1, Nat.lt_of_lt_of_le h.2 hhead⟩
  | _ => trivial

namespace Inv

variable (H : s.Inv k)
include H

theorem index_eq (p : UInt64) : s.index p = p.toNat % 2 ^ k := by
  have htwo := H.two_le
  have hone : (1 : UInt64) ≤ s.capacity := by
    rw [UInt64.le_iff_toNat_le, H.capacity, toNat_one]
    omega
  rw [index, UInt64.toNat_and, UInt64.toNat_sub_of_le _ _ hone, H.capacity, toNat_one,
    Nat.and_two_pow_sub_one_eq_mod]

theorem owned (howns : (s.threads t).owns = some p) :
    s.Owned k p ∧ (s.head.toNat ≤ p.toNat ∨ s.threads t = .claimed p) := by
  have hpc := H.threads t
  generalize s.threads t = pc at hpc howns ⊢
  cases pc with
  | reserved value q =>
    cases howns
    exact ⟨hpc.1, .inl hpc.2.1⟩
  | claimed q =>
    cases howns
    exact ⟨hpc.1, .inr rfl⟩
  | _ => cases howns

theorem toNat_round (h : p.toNat ≤ s.accepted.length) :
    (p + 1).toNat = p.toNat + 1 ∧ (p + s.capacity).toNat = p.toNat + 2 ^ k := by
  have htail := H.tail
  have htwo := H.two_le
  have hsmall := H.small
  rw [toNat_add, toNat_add, toNat_one, H.capacity]
  omega

theorem slot_of_owned (h : s.Owned k p) :
    s.slotAt k p = if s.head.toNat ≤ p.toNat then ⟨none, p⟩ else ⟨s.accepted[p.toNat]?, p + 1⟩ := by
  obtain ⟨hlt, hle, hside⟩ := h
  have hslot := H.slots p hlt hle
  obtain ⟨hsucc, hround⟩ := H.toNat_round hlt.le
  have htwo := H.two_le
  generalize s.slotAt k p = slot at hslot hside ⊢
  cases hslot with
  | reserved h => exact (if_pos h).symm
  | published =>
    rcases Nat.lt_or_ge p.toNat s.head.toNat with hlt' | hge
    · exact (if_neg (not_le.2 hlt')).symm
    have hstamp := congrArg UInt64.toNat (hside.trans (if_pos hge))
    simp only at hstamp
    omega
  | released h =>
  have hstamp := congrArg UInt64.toNat (hside.trans (if_neg (not_le.2 h)))
  simp only at hstamp
  omega

/-- The slot of the next position is free, or the position a round before has it still. -/
theorem next (hp : p.toNat = s.accepted.length) :
    s.slotAt k p = ⟨none, p⟩ ∧ s.accepted.length < s.head.toNat + 2 ^ k ∨
      (s.slotAt k p).sequence.toNat < p.toNat := by
  have htwo := H.two_le
  rcases Nat.lt_or_ge p.toNat (2 ^ k) with hlt | hge
  · exact .inl ⟨H.vacant p hlt (by omega), by omega⟩
  have hcap := H.capacity
  have hq : (p - s.capacity).toNat = p.toNat - 2 ^ k := by
    rw [UInt64.toNat_sub_of_le _ _ (UInt64.le_iff_toNat_le.2 (by omega)), hcap]
  have hsame : s.slotAt k p = s.slotAt k (p - s.capacity) := by
    rw [slotAt, slotAt, hq, ← Nat.mod_eq_sub_mod hge]
  have hsucc := (H.toNat_round (p := p - s.capacity) (by omega)).1
  have hslot := H.slots (p - s.capacity) (by omega) (by omega)
  rw [← hsame] at hslot
  generalize s.slotAt k p = slot at hslot ⊢
  cases hslot with
  | reserved | published =>
    right
    simp only
    omega
  | released h =>
  rw [UInt64.sub_add_cancel]
  exact .inl ⟨rfl, by omega⟩

theorem close : { s with tail := s.tail ||| kTailClosedBit }.Inv k where
  __ := H
  tail := by
    rw [← H.tail, UInt64.toNat_or]
    exact Nat.or_mod_two_pow.trans (Nat.or_zero _)
  threads u := (H.threads u).mono (fun _ => le_rfl) prefix_rfl le_rfl
    fun _ _ h => ⟨h, id⟩

variable [DecidableEq τ]

/-- The owner of another position keeps it. -/
theorem owner_update (hold : (s.threads t).owns ≠ some p) (hnew : pc.owns ≠ some p)
    (h : s.Owned k p) : ∃! u, (update s.threads t pc u).owns = some p := by
  refine (existsUnique_congr fun u => ?_).2 (H.owners p h)
  by_cases hu : u = t
  · rw [hu, update_self]
    exact iff_of_false hnew hold
  rw [update_of_ne hu]

theorem owner_gain {q : UInt64} (hold : (s.threads t).owns = none) (hnew : pc.owns = some p)
    (hfree : ¬s.Owned k p) (h : q = p ∨ s.Owned k q) :
    ∃! u, (update s.threads t pc u).owns = some q := by
  rcases h with rfl | h
  · refine .intro t (by rwa [update_self]) fun u hu => by_contra fun hne => hfree ?_
    rw [update_of_ne hne] at hu
    exact (H.owned hu).1
  refine H.owner_update (by simp [hold]) (fun hq => hfree ?_) h
  cases hq.symm.trans hnew
  exact h

theorem goto {old : Pc T} (hthread : s.threads t = old) (hold : old.owns = none)
    (hpc : s.PcOk k pc) (hnone : pc.owns = none) : (s.goto t pc).Inv k where
  __ := H
  threads := forall_update_iff s.threads (p := fun _ => s.PcOk k) |>.2 ⟨hpc, fun u _ => H.threads u⟩
  owners p := H.owner_update (by simp [hthread, hold]) (by simp [hnone])

/-- The owner of a position writes its slot. -/
theorem write {new : Slot T} {values : List T} (howns : (s.threads t).owns = some p)
    (hslot : SlotOk s.head.toNat s.capacity s.accepted[p.toNat]? p new)
    (hgrows : (s.slotAt k p).sequence.toNat < new.sequence.toNat)
    (hvalues : values = if s.head.toNat ≤ p.toNat then [] else s.accepted[p.toNat]?.toList)
    (hpc : ∀ s' : State T τ, s'.PcOk k pc) (hnone : pc.owns = none) :
    (({ s with delivered := update s.delivered p values }.setSlot p new).goto t pc).Inv k := by
  rw [State.setSlot, show State.index { s with delivered := update s.delivered p values } p = _ from
    H.index_eq p]
  obtain ⟨hlt, hle, hold⟩ := (H.owned howns).1
  have hother (q : UInt64) (h : q.toNat % 2 ^ k ≠ p.toNat % 2 ^ k) :
      update s.slots (p.toNat % 2 ^ k) new (q.toNat % 2 ^ k) = s.slotAt k q := update_of_ne h ..
  have hapart (q : UInt64) (hq : q.toNat < s.accepted.length)
      (hq' : s.accepted.length ≤ q.toNat + 2 ^ k) (hne : q ≠ p) :=
    hother q fun hmod => hne (toNat_inj.1
      (eq_of_mod hmod (hq.trans_le hle) (hlt.trans_le hq')))
  have hnew (q : UInt64) :
      State.Owned k { s with slots := update s.slots (p.toNat % 2 ^ k) new } q ↔
        q ≠ p ∧ s.Owned k q := by
    constructor
    · rintro ⟨hq, hle', hside⟩
      have hside : (update s.slots (p.toNat % 2 ^ k) new (q.toNat % 2 ^ k)).sequence = _ := hside
      by_cases heq : q = p
      · subst heq
        rw [update_self] at hside
        rw [hold, hside] at hgrows
        exact absurd hgrows (lt_irrefl _)
      rw [hapart q hq hle' heq] at hside
      exact ⟨heq, hq, hle', hside⟩
    rintro ⟨hne, hq, hle', hside⟩
    exact ⟨hq, hle', (congrArg _ (hapart q hq hle' hne)).trans hside⟩
  refine { H with
    slots := fun q hq hle' => ?_
    vacant := fun q hq hle' => ?_
    threads := ?_
    owners := fun q h => ?_
    delivered := fun q hq hfree => ?_
    held := fun q h => ?_ }
  · show SlotOk _ _ _ _ (update s.slots _ new _)
    by_cases heq : q = p
    · rw [heq, update_self]
      exact hslot
    rw [hapart q hq hle' heq]
    exact H.slots q hq hle'
  · refine (hother q fun hmod => ?_).trans (H.vacant q hq hle')
    have hle' : s.accepted.length ≤ q.toNat := hle'
    have heq := eq_of_mod hmod (by omega) (by omega)
    omega
  · refine (forall_update_iff s.threads fun _ => State.PcOk k _).2 ⟨hpc _, fun u hu => ?_⟩
    refine (H.threads u).mono (fun q => ?_) prefix_rfl le_rfl fun q howns' h =>
      ⟨(hnew q).2 ⟨fun heq => hu ((H.owners q h).unique howns' (heq ▸ howns)), h⟩, id⟩
    show _ ≤ (update s.slots _ new _).sequence.toNat
    by_cases hmod : q.toNat % 2 ^ k = p.toNat % 2 ^ k
    · rw [hmod, update_self, slotAt, hmod]
      exact Nat.le_of_lt hgrows
    rw [hother q hmod]
  · obtain ⟨hne, hq⟩ := (hnew q).1 h
    exact H.owner_update (fun h => hne (Option.some.inj (h.symm.trans howns))) (by simp [hnone]) hq
  · show update s.delivered p values q = _
    by_cases heq : q = p
    · subst heq
      exact (update_self ..).trans (hvalues.trans (if_neg (not_le.2 hq)))
    rw [update_of_ne heq]
    exact H.delivered q hq fun h => hfree ((hnew q).2 ⟨heq, h⟩)
  show update s.delivered p values q = _
  by_cases heq : q = p
  · subst heq
    have hge := not_lt.1 fun hlt => ((hnew q).1 (h hlt)).1 rfl
    exact (update_self ..).trans (hvalues.trans (if_pos hge))
  rw [update_of_ne heq]
  exact H.held q fun hlt => ((hnew q).1 (h hlt)).2

theorem reserve (hpc : s.threads t = .reserving value p) (htail : s.tail = p) :
    ({ s with tail := p + 1, accepted := s.accepted ++ [value] }.goto t
      (.reserved value p)).Inv k := by
  obtain ⟨hsmall, hseq⟩ : s.PcOk k (.reserving value p) := hpc ▸ H.threads t
  have hp := H.tail
  rw [htail, Nat.mod_eq_of_lt (by omega)] at hp
  obtain ⟨hslot, hroom⟩ := (H.next hp).resolve_right (not_lt.2 hseq)
  have horder := H.order
  have htwo := H.two_le
  have hlen : (s.accepted ++ [value]).length = s.accepted.length + 1 := length_append
  have hvalue : (s.accepted ++ [value])[p.toNat]? = some value := by
    rw [hp]
    exact getElem?_concat_length
  have hsucc := (H.toNat_round hp.le).1
  -- a position with an owner does not have the slot of the new one
  have howned {q} (h : s.Owned k q) : s.accepted.length + 1 ≤ q.toNat + 2 ^ k := by
    obtain ⟨hlt, hle, hside⟩ := h
    rcases Nat.lt_or_eq_of_le hle with hlt' | heq
    · exact hlt'
    have hmod : s.slotAt k q = s.slotAt k p := by
      rw [slotAt, slotAt, hp, heq, Nat.add_mod_right]
    have hstamp : _ = p.toNat := congrArg UInt64.toNat
      (hside.symm.trans (congrArg Slot.sequence (hmod.trans hslot)))
    have hsucc := (H.toNat_round hlt.le).1
    split at hstamp <;> omega
  have hnew (q : UInt64) :
      State.Owned k { s with tail := p + 1, accepted := s.accepted ++ [value] } q ↔
        q = p ∨ s.Owned k q := by
    simp only [State.Owned, hlen]
    constructor
    · rintro ⟨hlt, hle, hside⟩
      refine or_iff_not_imp_left.2 fun hne => ⟨?_, by omega, hside⟩
      have hne' : q.toNat ≠ p.toNat := fun h => hne (toNat_inj.1 h)
      omega
    rintro (rfl | h)
    · exact ⟨by omega, by omega,
        (congrArg Slot.sequence hslot).trans (if_pos (horder.trans hp.ge)).symm⟩
    exact ⟨Nat.lt_succ_of_lt h.1, howned h, h.2.2⟩
  refine { H with
    tail := ?_
    order := Nat.le_trans horder (prefix_append ..).length_le
    fits := hlen.trans_le hroom
    slots := fun q hq hle => ?_
    vacant := fun q hq hle => ?_
    threads := ?_
    owners := fun q h => ?_
    delivered := fun q hq hfree => ?_
    held := fun q h => H.held q fun hlt => ((hnew q).1 (h hlt)).resolve_left fun heq => ?_ }
  · simp only [State.goto, hsucc, hlen]
    omega
  · simp only [State.goto, hlen] at hq hle
    show SlotOk _ _ (s.accepted ++ [value])[q.toNat]? q (s.slotAt k q)
    rcases Nat.lt_succ_iff_lt_or_eq.1 hq with hlt | heq
    · rw [getElem?_append_left hlt]
      exact H.slots q hlt (by omega)
    obtain rfl : q = p := toNat_inj.1 (by omega)
    rw [hslot]
    exact .reserved (Nat.le_trans horder (by omega))
  · simp only [State.goto, hlen] at hle
    exact H.vacant q hq (by omega)
  · exact (forall_update_iff s.threads fun _ => State.PcOk k _).2
      ⟨⟨(hnew p).2 (.inl rfl), horder.trans hp.ge, hvalue⟩, fun u _ => (H.threads u).mono
        (fun _ => le_rfl) (prefix_append ..) le_rfl
        fun q _ h => ⟨(hnew q).2 (.inr h), id⟩⟩
  · exact H.owner_gain (congrArg Pc.owns hpc) rfl (fun h => absurd h.1 hp.not_lt) ((hnew q).1 h)
  · refine (H.delivered q hq fun h => hfree ((hnew q).2 (.inr h))).trans ?_
    exact congrArg _ (getElem?_append_left (hq.trans_le horder)).symm
  subst heq
  omega

theorem claim (hpc : s.threads t = .claiming p) (hhead : s.head = p) :
    ({ s with head := p + 1 }.goto t (.claimed p)).Inv k := by
  have hsequence : p.toNat < (s.slotAt k p).sequence.toNat :=
    (hpc ▸ H.threads t : s.PcOk k (.claiming p))
  have horder := H.order
  have hfits := H.fits
  rw [hhead] at horder hfits
  have hsucc := (H.toNat_round horder).1
  have hlt : p.toNat < s.accepted.length := by
    refine Nat.lt_of_le_of_ne horder fun heq => ?_
    rcases H.next heq with ⟨hslot, -⟩ | hless
    · rw [hslot] at hsequence
      exact absurd hsequence (lt_irrefl _)
    omega
  have hstamp : (s.slotAt k p).sequence = p + 1 := by
    have hslot := H.slots p hlt (by omega)
    rw [hhead] at hslot
    generalize s.slotAt k p = slot at hslot hsequence ⊢
    cases hslot with
    | reserved => exact absurd hsequence (lt_irrefl _)
    | published => rfl
    | released h => exact absurd h (lt_irrefl _)
  have hfree : ¬s.Owned k p := fun h => by
    have heq := h.2.2.trans (if_pos (hhead ▸ le_rfl))
    have := congrArg UInt64.toNat (hstamp.symm.trans heq)
    omega
  have hside {q : UInt64} (hq : q ≠ p) : (p + 1).toNat ≤ q.toNat ↔ s.head.toNat ≤ q.toNat := by
    have hne : q.toNat ≠ p.toNat := fun h => hq (toNat_inj.1 h)
    rw [hhead, hsucc]
    omega
  have hnew (q : UInt64) : State.Owned k { s with head := p + 1 } q ↔ q = p ∨ s.Owned k q := by
    by_cases heq : q = p
    · subst heq
      refine iff_of_true ⟨hlt, hfits.trans (by omega), hstamp.trans (if_neg ?_).symm⟩ (.inl rfl)
      simp only [hsucc]
      omega
    rw [or_iff_right heq, State.Owned, State.Owned]
    simp only [hside heq]
    rfl
  refine { H with
    order := hsucc.trans_le hlt
    fits := Nat.le_trans hfits (Nat.add_le_add_right (Nat.le_of_succ_le hsucc.ge) _)
    slots := fun q hq hle => ?_
    threads := ?_
    owners := fun q h => H.owner_gain (congrArg Pc.owns hpc) rfl hfree ((hnew q).1 h)
    delivered := fun q hq hfree => ?_
    held := fun q h => ?_ }
  · have hold := H.slots q hq hle
    show SlotOk (p + 1).toNat _ _ q (s.slotAt k q)
    rw [hhead] at hold
    rw [hsucc]
    generalize hx : s.slotAt k q = slot at hold ⊢
    cases hold with
    | reserved h =>
      refine .reserved (Nat.lt_of_le_of_ne h fun heq => ?_)
      obtain rfl := toNat_inj.1 heq
      rw [hx] at hsequence
      exact absurd hsequence (lt_irrefl _)
    | published => exact .published
    | released h => exact .released (Nat.lt_succ_of_lt h)
  · have hgrows : s.head.toNat ≤ (p + 1).toNat := by
      rw [hhead, hsucc]
      exact Nat.le_succ _
    exact (forall_update_iff s.threads fun _ => State.PcOk k _).2
      ⟨⟨(hnew p).2 (.inl rfl), hsucc.ge⟩, fun u _ => (H.threads u).mono (fun _ => le_rfl)
        prefix_rfl hgrows fun q _ h => ⟨(hnew q).2 (.inr h), (hside fun heq => hfree (heq ▸ h)).2⟩⟩
  · have hside := hside fun heq => hfree ((hnew q).2 (.inl heq))
    exact H.delivered q (not_le.1 (mt hside.2 (not_le.2 hq))) fun h =>
      hfree ((hnew q).2 (.inr h))
  refine H.held q fun hlt => ?_
  have hne : q ≠ p := fun heq => lt_irrefl _ (hhead ▸ heq ▸ hlt)
  exact ((hnew q).1 (h (not_le.1 (mt (hside hne).1 (not_le.2 hlt))))).resolve_left hne

end Inv

theorem Inv.start (capacity : Nat) : ∃ k, (start capacity : State T τ).Inv k := by
  obtain ⟨k, hk, hk', hcap⟩ := normalizeCapacity_eq capacity
  have hsmall : 2 ^ k ≤ 2 ^ 62 := Nat.pow_le_pow_right (by decide) hk'
  refine ⟨k, {
    two_le := Nat.pow_le_pow_right (n := 2) (by decide) hk
    small := hsmall
    capacity := ?_
    tail := rfl
    order := le_rfl
    fits := Nat.zero_le _
    slots := fun p hp => absurd hp (Nat.not_lt_zero _)
    vacant := fun p hp _ => ?_
    threads := fun _ => trivial
    owners := fun _ h => absurd h.1 (Nat.not_lt_zero _)
    delivered := fun _ h => absurd h (Nat.not_lt_zero _)
    held := fun _ _ => rfl }⟩
  · rw [State.start, hcap]
    exact UInt64.toNat_ofNat_of_lt' (Nat.lt_of_le_of_lt hsmall (show 2 ^ 62 < 2 ^ 64 by decide))
  rw [slotAt, Nat.mod_eq_of_lt hp]
  exact congrArg (Slot.mk none) UInt64.ofNat_toNat

/-- What a user of the channel relies on. -/
structure Delivers (s : State T τ) : Prop where
  order : s.head.toNat ≤ s.accepted.length
  fits : s.accepted.length ≤ s.head.toNat + s.capacity.toNat
  /-- Each message is delivered once, unless its claimer has it still. -/
  delivered : ∀ p, p.toNat < s.head.toNat → (∀ t, s.threads t ≠ .claimed p) →
    s.delivered p = s.accepted[p.toNat]?.toList
  held : ∀ p, (p.toNat < s.head.toNat → ∃ t, s.threads t = .claimed p) → s.delivered p = []
  reserved : ∀ t value p, s.threads t = .reserved value p →
    s.accepted[p.toNat]? = some value ∧ (s.slots (s.index p)).storage = none
  claimed : ∀ t p, s.threads t = .claimed p →
    ∃ value, s.accepted[p.toNat]? = some value ∧ (s.slots (s.index p)).storage = some value
  apart : ∀ t t' p p', (s.threads t).owns = some p → (s.threads t').owns = some p' → t ≠ t' →
    s.index p ≠ s.index p'

theorem Inv.delivers (H : s.Inv k) : s.Delivers where
  order := H.order
  fits := H.capacity ▸ H.fits
  delivered p hp hheld := by
    refine H.delivered p hp fun howned => ?_
    obtain ⟨t, ht, -⟩ := H.owners p howned
    exact (H.owned ht).2.elim (fun hge => absurd hp (not_lt.2 hge)) fun h => absurd h (hheld t)
  held p hheld := by
    refine H.held p fun hlt => ?_
    obtain ⟨t, ht⟩ := hheld hlt
    exact (H.owned (congrArg Pc.owns ht)).1
  reserved t value p ht := by
    have hpc : s.PcOk k (.reserved value p) := ht ▸ H.threads t
    refine ⟨hpc.2.2, ?_⟩
    rw [H.index_eq]
    exact congrArg Slot.storage ((H.slot_of_owned hpc.1).trans (if_pos hpc.2.1))
  claimed t p ht := by
    have hpc : s.PcOk k (.claimed p) := ht ▸ H.threads t
    refine ⟨_, getElem?_eq_getElem hpc.1.1, ?_⟩
    rw [H.index_eq, ← getElem?_eq_getElem]
    exact congrArg Slot.storage ((H.slot_of_owned hpc.1).trans (if_neg (not_le.2 hpc.2)))
  apart t t' p p' howns howns' hne hindex := by
    have howned := (H.owned howns).1
    have howned' := (H.owned howns').1
    rw [H.index_eq, H.index_eq] at hindex
    obtain rfl : p = p' := toNat_inj.1 (eq_of_mod hindex
      (Nat.lt_of_lt_of_le howned.1 howned'.2.1) (Nat.lt_of_lt_of_le howned'.1 howned.2.1))
    exact hne ((H.owners _ howned).unique howns howns')

variable [DecidableEq τ]

theorem Inv.advance {spurious} (H : s.Inv k) (h : s.advance t spurious = some s') : s'.Inv k := by
  have hpc := H.threads t
  rw [State.advance] at h
  repeat' split at h
  -- the steps that only read
  all_goals try (cases h; exact H.goto ‹_› rfl (by first | trivial | exact le_rfl) rfl)
  · next hthread _ hmask hexchange =>
    cases h
    rw [← hexchange.1]
    exact H.close.goto hthread rfl trivial rfl
  · next tail hthread hopen hmask =>
    cases h
    rw [closed_iff, not_le] at hopen
    split
    · next hdiff =>
      have hne : tail.toNat ≠ 2 ^ 63 - 1 := fun heq => hmask (toNat_inj.1 heq)
      refine H.goto hthread rfl ⟨by omega, ?_⟩ rfl
      rw [slotAt, ← H.index_eq, eq_of_difference hdiff]
    split <;> exact H.goto hthread rfl trivial rfl
  · next hthread hexchange =>
    cases h
    exact H.reserve hthread hexchange.1
  · next value position hthread =>
    cases h
    rw [hthread] at hpc
    obtain ⟨howned, hside, hvalue⟩ := hpc
    have hsucc := (H.toNat_round howned.1.le).1
    have hnew : SlotOk s.head.toNat s.capacity s.accepted[position.toNat]? position
        ⟨some value, position + 1⟩ := hvalue ▸ .published
    have hdelivered : s.delivered position = [] := H.held position fun _ => howned
    have hrest (s' : State T τ) : s'.PcOk k (.enqueued .kSent) := trivial
    have hwrite := H.write (congrArg Pc.owns hthread) hnew
      (by simp only [H.slot_of_owned howned, hside, if_true]; omega)
      (hdelivered.trans (if_pos hside).symm) hrest rfl
    rwa [update_eq_self] at hwrite
  · next position hthread =>
    cases h
    rw [hthread] at hpc
    split
    · next hdiff =>
      have hsucc := (H.toNat_round (Nat.le_trans hpc H.order)).1
      refine H.goto hthread rfl (?_ : _ < _) rfl
      rw [slotAt, ← H.index_eq, eq_of_difference hdiff]
      omega
    split <;> exact H.goto hthread rfl trivial rfl
  · next hthread hexchange =>
    cases h
    exact H.claim hthread hexchange.1
  · next position hthread =>
    rw [hthread] at hpc
    obtain ⟨howned, hside⟩ := hpc
    have hslot := (H.slot_of_owned howned).trans (if_neg (not_le.2 hside))
    have hdelivered : s.delivered position = [] := H.held position fun _ => howned
    obtain ⟨value, hstored, rfl⟩ := Option.map_eq_some_iff.1 h
    rw [H.index_eq] at hstored
    have hvalue : s.accepted[position.toNat]? = some value :=
      (congrArg Slot.storage hslot).symm.trans hstored
    obtain ⟨hsucc, hround⟩ := H.toNat_round howned.1.le
    have htwo := H.two_le
    refine H.write (congrArg Pc.owns hthread) (.released hside) ?_ ?_ (fun _ => trivial) rfl
    · rw [hslot]
      simp only
      omega
    rw [hdelivered, if_neg (not_le.2 hside), hvalue]
    rfl
  cases h

theorem Inv.step {action} (H : s.Inv k) (h : s.step t action = some s') : s'.Inv k := by
  rw [State.step.eq_def] at h
  split at h
  · exact H.advance h
  split at h
  · next hrest =>
    have hold : (s.threads t).owns = none := by
      generalize s.threads t = pc at hrest ⊢
      cases pc <;> first | rfl | cases hrest
    cases h
    split
    · exact H.goto rfl hold trivial rfl
    · exact H.goto rfl hold trivial rfl
    exact H.close
  cases h

theorem Inv.closed {action accepted} (h : s.step t action = some s')
    (H : s.Inv k ∧ 2 ^ 63 ≤ s.tail.toNat ∧ s.accepted = accepted) :
    s'.Inv k ∧ 2 ^ 63 ≤ s'.tail.toNat ∧ s'.accepted = accepted := by
  obtain ⟨hinv, hclosed, haccepted⟩ := H
  refine ⟨hinv.step h, ?_⟩
  have hpc := hinv.threads t
  rw [State.step.eq_def] at h
  split at h
  · rw [State.advance] at h
    repeat' split at h
    -- most steps leave the tail as it is
    all_goals try (cases h; exact ⟨hclosed, haccepted⟩)
    · next hopen _ hexchange =>
      rw [← hexchange.1, closed_iff] at hopen
      exact absurd hclosed hopen
    · next hthread hexchange =>
      rw [hthread, ← hexchange.1] at hpc
      exact absurd hpc.1 (by omega)
    · obtain ⟨_, -, rfl⟩ := Option.map_eq_some_iff.1 h
      exact ⟨hclosed, haccepted⟩
    cases h
  split at h
  · cases h
    split <;> try exact ⟨hclosed, haccepted⟩
    exact ⟨hclosed.trans ((UInt64.toNat_or ..).trans_ge Nat.left_le_or), haccepted⟩
  cases h

theorem Inv.run (H : s.Inv k) {steps} (h : s.run steps = some s') : s'.Inv k :=
  Lib.invariant_of_reaches (fun _ _ H hstep => hstep.elim fun _ => H.step) H
    (Lib.reaches_of_foldlM h)

theorem run_delivers (capacity : Nat) {steps : List (τ × Action T)}
    (h : (start capacity).run steps = some s) : s.Delivers := by
  obtain ⟨k, hstart⟩ := Inv.start (T := T) (τ := τ) capacity
  exact (hstart.run h).delivers

def sample : List (Bool × Action Nat) :=
  [(true, .trySend 7)] ++ replicate 4 (true, .advance false) ++ [(false, .tryRecv)] ++
    replicate 4 (false, .advance false)

theorem run_delivers_sample : ∃ s, (start 1).run sample = some s ∧ s.Delivers :=
  ⟨_, rfl, run_delivers 1 (show (start 1).run sample = some _ from rfl)⟩

/-- After `close` nothing is accepted, and what a receiver tests is exact. -/
theorem run_of_closed (capacity : Nat) {steps more : List (τ × Action T)}
    (h : (start capacity).run steps = some s) (hclosed : s.isClosed) (hmore : s.run more = some s') :
    s'.tail = s.tail ∧ s'.accepted = s.accepted ∧
      (isClosedAndDrained s.tail s'.head ↔ s'.head.toNat = s'.accepted.length) := by
  obtain ⟨k, hstart⟩ := Inv.start (T := T) (τ := τ) capacity
  have hbit := of_decide_eq_true hclosed
  have hge := closed_iff.1 hbit
  have hinv := hstart.run h
  obtain ⟨hinv', hge', haccepted⟩ := Lib.invariant_of_reaches
    (fun _ _ H hstep => hstep.elim fun _ h => Inv.closed h H) ⟨hinv, hge, rfl⟩
    (Lib.reaches_of_foldlM hmore)
  have htail := hinv.tail
  have htail' := hinv'.tail
  rw [haccepted] at htail'
  have hlt := s.tail.toNat_lt
  have hlt' := s'.tail.toNat_lt
  refine ⟨toNat_inj.1 (by omega), haccepted, ?_⟩
  have hmask : (s.tail &&& kTailPositionMask).toNat = s'.accepted.length :=
    (UInt64.toNat_and ..).trans ((Nat.and_two_pow_sub_one_eq_mod _ 63).trans
      (htail.trans (congrArg length haccepted.symm)))
  rw [← hmask, toNat_inj, isClosedAndDrained, decide_eq_true_iff, and_iff_right hbit, eq_comm]

theorem run_of_closed_sample : ∃ s s', (start 1).run (sample ++ [(true, .close)]) = some s ∧
    s.run [(true, .trySend 3), (false, .tryRecv)] = some s' ∧ s'.tail = s.tail ∧
      s'.accepted = s.accepted ∧
        (isClosedAndDrained s.tail s'.head ↔ s'.head.toNat = s'.accepted.length) :=
  ⟨_, _, rfl, rfl, run_of_closed 1 (show (start 1).run (sample ++ [(true, .close)]) = some _ from rfl)
    rfl (show State.run _ [(true, .trySend 3), (false, .tryRecv)] = some _ from rfl)⟩

end State

end Galay.Kernel.BoundedChannel
