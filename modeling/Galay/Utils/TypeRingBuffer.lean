import Mathlib.Algebra.Group.Nat.Defs
import Mathlib.Data.Nat.Log
import Mathlib.Data.List.Basic

/-!
# The typed ring buffer (`galay-utils/cache/type_ring_buffer.hpp`)

`w` is the number of digits of `Cursor` and `s` that of `size_t`. A slot that holds no object is `none`,
and reading it is undefined: the functions that read return `none` then. What is trivially copyable is
moved by `memcpy`, which leaves the object in its slot, otherwise element by element.
-/

namespace Galay.Utils

variable {T : Type*} {w : Nat}

/-- What each side has for itself. -/
structure CursorState (w : Nat) where
  capacity : Nat
  mask : Nat
  position : BitVec w := 0
  cachedPeer : BitVec w := 0

structure TypeRingBuffer (T : Type*) (w : Nat) where
  slots : List (Option T)
  tail : BitVec w := 0
  head : BitVec w := 0
  producerLocal : CursorState w
  consumerLocal : CursorState w

namespace TypeRingBuffer

/-! ## Construction -/

def kTypeRingBufferMaximumCapacity (w s : Nat) : Nat := 2 ^ (min w s - 1)

/-- With the size of a slot. -/
def kMaximumCapacity (w s slotSize : Nat) : Nat :=
  min (kTypeRingBufferMaximumCapacity w s) (2 ^ Nat.log 2 ((2 ^ s - 1) / slotSize))

/-- `std::bit_ceil` takes the next power of two. -/
def normalizeCapacity (w s slotSize capacity : Nat) : Nat :=
  let maximum := kMaximumCapacity w s slotSize
  if maximum < 2 then 0
  else if capacity ≤ 2 then 2
  else if capacity > maximum then 0
  else 2 ^ Nat.clog 2 capacity

def initializeLocalStorage (capacity : Nat) : TypeRingBuffer T w where
  slots := List.replicate capacity none
  producerLocal := { capacity, mask := capacity - 1 }
  consumerLocal := { capacity, mask := capacity - 1 }

/-! ## Cursors -/

section

variable (s : Nat)

/-- A cursor as a `size_t`. -/
def toSize (cursor : BitVec w) : Nat := cursor.toNat % 2 ^ s

def cursorDistance (newer older : BitVec w) : Nat := toSize s (newer - older)

/-- The slot that lies `offset` behind a cursor. -/
def slotIndex (cursor : BitVec w) (offset mask : Nat) : Nat :=
  (toSize s cursor + offset) % 2 ^ s &&& mask

end

/-! ## Slots -/

/-- `std::construct_at` in each slot. -/
def constructEach (s : Nat) (position : BitVec w) (mask : Nat) (slots : List (Option T)) :
    Nat → List T → List (Option T)
  | _, [] => slots
  | offset, value :: values =>
    constructEach s position mask (slots.set (slotIndex s position offset mask) (some value))
      (offset + 1) values

/-- `count` objects are moved out, and destroyed. -/
def moveEach (s : Nat) (position : BitVec w) (mask : Nat) (slots : List (Option T)) (offset : Nat) :
    Nat → Option (List T × List (Option T))
  | 0 => some ([], slots)
  | count + 1 => do
    let index := slotIndex s position offset mask
    let value ← slots[index]?.join
    let (values, slots) ← moveEach s position mask (slots.set index none) (offset + 1) count
    some (value :: values, slots)

/-- The first part goes up to the end of the storage, and the second starts at its front. -/
def copyIn (slots : List (Option T)) (firstIndex firstCount : Nat) (values : List T) :
    List (Option T) :=
  let slots := slots.take firstIndex ++ (values.take firstCount).map some ++
    slots.drop (firstIndex + (values.take firstCount).length)
  let secondCount := values.length - firstCount
  if secondCount ≠ 0 then (values.drop firstCount).map some ++ slots.drop secondCount else slots

def copyOut (slots : List (Option T)) (firstIndex firstCount count : Nat) : Option (List T) :=
  let secondCount := count - firstCount
  ((slots.drop firstIndex).take firstCount ++ slots.take secondCount).mapM id

/-! ## The producer -/

variable (s : Nat)

variable (ring : TypeRingBuffer T w)

/-- `m_head` is loaded. -/
def refreshProducer : TypeRingBuffer T w :=
  { ring with producerLocal := { ring.producerLocal with cachedPeer := ring.head } }

/-- How many elements the producer takes to be held. -/
def used : Nat :=
  cursorDistance s ring.producerLocal.position ring.producerLocal.cachedPeer

def publishTail (slots : List (Option T)) (count : Nat) :
    TypeRingBuffer T w :=
  let next := ring.producerLocal.position + BitVec.ofNat w count
  { ring with slots, tail := next, producerLocal := { ring.producerLocal with position := next } }

def tryWrite (value : T) : Bool × TypeRingBuffer T w :=
  let ring := if ring.used s ≥ ring.producerLocal.capacity then ring.refreshProducer else ring
  if ring.used s ≥ ring.producerLocal.capacity then (false, ring)
  else
    let producer := ring.producerLocal
    (true, ring.publishTail
      (ring.slots.set (toSize s producer.position &&& producer.mask) (some value)) 1)

variable {ring}

/-- What the producer does once there is room. -/
def writeBatch (triviallyCopyable : Bool) (ring : TypeRingBuffer T w) (values : List T) :
    Nat × TypeRingBuffer T w :=
  let producer := ring.producerLocal
  let count := min values.length (producer.capacity - ring.used s)
  let values := values.take count
  if triviallyCopyable then
    let firstIndex := toSize s producer.position &&& producer.mask
    let firstCount := min count (producer.capacity - firstIndex)
    (count, ring.publishTail (copyIn ring.slots firstIndex firstCount values) count)
  else
    (count, ring.publishTail (constructEach s producer.position producer.mask ring.slots 0 values)
      count)

def tryWriteBatch (triviallyCopyable : Bool) (ring : TypeRingBuffer T w) (values : List T) :
    Nat × TypeRingBuffer T w :=
  if values.isEmpty then (0, ring)
  else if ring.used s ≥ ring.producerLocal.capacity ∨
      values.length > ring.producerLocal.capacity - ring.used s then
    let ring := ring.refreshProducer
    if ring.used s ≥ ring.producerLocal.capacity then (0, ring)
    else ring.writeBatch s triviallyCopyable values
  else ring.writeBatch s triviallyCopyable values

/-! ## The consumer -/

variable (ring : TypeRingBuffer T w)

/-- `m_tail` is loaded. -/
def refreshConsumer : TypeRingBuffer T w :=
  { ring with consumerLocal := { ring.consumerLocal with cachedPeer := ring.tail } }

/-- How many elements the consumer takes to be held. -/
def available : Nat :=
  cursorDistance s ring.consumerLocal.cachedPeer ring.consumerLocal.position

def publishHead (slots : List (Option T)) (count : Nat) :
    TypeRingBuffer T w :=
  let next := ring.consumerLocal.position + BitVec.ofNat w count
  { ring with slots, head := next, consumerLocal := { ring.consumerLocal with position := next } }

def tryRead : Option (Option T × TypeRingBuffer T w) :=
  let ring :=
    if ring.consumerLocal.position = ring.consumerLocal.cachedPeer then ring.refreshConsumer else ring
  let consumer := ring.consumerLocal
  if consumer.position = consumer.cachedPeer then some (none, ring)
  else do
    let index := toSize s consumer.position &&& consumer.mask
    let value ← ring.slots[index]?.join
    some (some value, ring.publishHead (ring.slots.set index none) 1)

/-- `tryRead` into an object of the caller. -/
def tryReadInto (output : T) : Option (Bool × T × TypeRingBuffer T w) :=
  let ring :=
    if ring.consumerLocal.position = ring.consumerLocal.cachedPeer then ring.refreshConsumer else ring
  let consumer := ring.consumerLocal
  if consumer.position = consumer.cachedPeer then some (false, output, ring)
  else do
    let index := toSize s consumer.position &&& consumer.mask
    let value ← ring.slots[index]?.join
    some (true, value, ring.publishHead (ring.slots.set index none) 1)

/-- With the storage of the caller as it is afterwards. -/
def tryReadBatch (triviallyCopyable : Bool) (ring : TypeRingBuffer T w) (output : List T) :
    Option (Nat × List T × TypeRingBuffer T w) :=
  if output.isEmpty then some (0, output, ring)
  else
    let ring := if ring.available s < output.length then ring.refreshConsumer else ring
    let consumer := ring.consumerLocal
    let count := min output.length (ring.available s)
    if count = 0 then some (0, output, ring)
    else if triviallyCopyable then do
      let firstIndex := toSize s consumer.position &&& consumer.mask
      let firstCount := min count (consumer.capacity - firstIndex)
      let values ← copyOut ring.slots firstIndex firstCount count
      some (count, values ++ output.drop count, ring.publishHead ring.slots count)
    else do
      let (values, slots) ← moveEach s consumer.position consumer.mask ring.slots 0 count
      some (count, values ++ output.drop count, ring.publishHead slots count)

/-- New local cursors for the endpoints, from what has been published. -/
def split : TypeRingBuffer T w :=
  { ring with
    producerLocal := { ring.producerLocal with position := ring.tail, cachedPeer := ring.head }
    consumerLocal := { ring.consumerLocal with position := ring.head, cachedPeer := ring.tail } }

end TypeRingBuffer

end Galay.Utils
