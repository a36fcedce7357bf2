import Galay.Utils.RingBuffer

/-!
# The two backends of the ring buffer (`galay-utils/cache/ring_buffer.hpp`)

`VectorRingBufferImpl` hands out at most two segments and moves its indices by a remainder;
`MmapRingBufferImpl` hands out one, since its memory is mapped twice in a row, and moves them by a
conditional subtraction. Both are `RingBuffer`s with the values left where they are, so that they
hold the same bytes after the same operations, and these are those of a bounded queue. The `iovec`
functions, with room for two, describe the same regions as the spans.
-/

namespace Galay

open List

/-- Offset and length. -/
abbrev RingSegment := Nat × Nat

/-- `memcpy` into the segments, one after the other: the memory and the number of bytes. -/
def copyInto (memory : Bytes) : List RingSegment → Bytes → Bytes × Nat
  | [], _ => (memory, 0)
  | (offset, length) :: segments, data =>
    if data = [] then (memory, 0)
    else
      let chunk := data.take length
      let (memory, written) :=
        copyInto (Lib.splice memory offset chunk) segments (data.drop length)
      (memory, chunk.length + written)

/-- `memcpy` out of the spans, until so many bytes are read. -/
def copyOut : List Bytes → Nat → Bytes
  | [], _ => []
  | span :: spans, toRead =>
    if toRead = 0 then [] else span.take toRead ++ copyOut spans (toRead - span.length)

/-! ## The backends -/

structure VectorRingBufferImpl where
  buffer : Bytes
  readIndex : Nat := 0
  writeIndex : Nat := 0
  size : Nat := 0
  deriving DecidableEq, Repr

namespace VectorRingBufferImpl

def create (capacity : Nat) : VectorRingBufferImpl := { buffer := List.replicate capacity 0 }

variable (ring : VectorRingBufferImpl)

def readable : Nat := ring.size
def capacity : Nat := ring.buffer.length
def writable : Nat := ring.capacity - ring.size
def empty : Bool := ring.size = 0
def full : Bool := ring.size = ring.capacity

def writeSegments : List RingSegment :=
  if ring.full then []
  else
    let available := ring.writable
    let first := min available (ring.capacity - ring.writeIndex)
    let second := available - first
    if second = 0 then [(ring.writeIndex, first)] else [(ring.writeIndex, first), (0, second)]

def readSegments : List RingSegment :=
  if ring.empty then []
  else
    let available := ring.readable
    let first := min available (ring.capacity - ring.readIndex)
    let second := available - first
    if second = 0 then [(ring.readIndex, first)] else [(ring.readIndex, first), (0, second)]

def readSpans : List Bytes :=
  ring.readSegments.map fun (offset, length) => (ring.buffer.drop offset).take length

/-- What the caller writes into the spans or `iovec`s it is given, as far as they reach. -/
def writeSpans (data : Bytes) : VectorRingBufferImpl :=
  { ring with buffer := (copyInto ring.buffer ring.writeSegments data).1 }

def produce (length : Nat) : VectorRingBufferImpl :=
  if length = 0 ∨ ring.capacity = 0 then ring
  else
    let actual := min length ring.writable
    { ring with
      writeIndex := (ring.writeIndex + actual) % ring.capacity
      size := ring.size + actual }

def consume (length : Nat) : VectorRingBufferImpl :=
  if length = 0 ∨ ring.capacity = 0 then ring
  else
    let actual := min length ring.readable
    let ring := { ring with
      readIndex := (ring.readIndex + actual) % ring.capacity
      size := ring.size - actual }
    if ring.size = 0 then { ring with readIndex := 0, writeIndex := 0 } else ring

def clear : VectorRingBufferImpl :=
  { ring with readIndex := 0, writeIndex := 0, size := 0 }

def tryWriteBatch (data : Bytes) : VectorRingBufferImpl × Nat :=
  if data = [] ∨ ring.full then (ring, 0)
  else
    let toWrite := min data.length ring.writable
    let (buffer, written) := copyInto ring.buffer ring.writeSegments (data.take toWrite)
    (({ ring with buffer := buffer } : VectorRingBufferImpl).produce written, written)

def tryReadBatch (length : Nat) : VectorRingBufferImpl × Bytes :=
  if length = 0 ∨ ring.empty then (ring, [])
  else
    let toRead := min length ring.readable
    let target := copyOut ring.readSpans toRead
    (ring.consume target.length, target)

end VectorRingBufferImpl

/-- The memory behind both mappings is `base`: an address is taken modulo the capacity. -/
structure MmapRingBufferImpl where
  base : Bytes
  capacity : Nat
  readIndex : Nat := 0
  writeIndex : Nat := 0
  size : Nat := 0
  deriving DecidableEq, Repr

namespace MmapRingBufferImpl

/-- A buffer of a capacity that is a whole number of pages, with all its resources. -/
def create (capacity : Nat) : MmapRingBufferImpl :=
  { base := List.replicate capacity 0, capacity := capacity }

variable (ring : MmapRingBufferImpl)

def readable : Nat := ring.size
def writable : Nat := ring.capacity - ring.size
def empty : Bool := ring.size = 0
def full : Bool := ring.size = ring.capacity

def readSpans : List Bytes :=
  if ring.empty then [] else [Lib.window ring.base ring.readIndex ring.readable]

/-- What the caller writes into the span or `iovec` it is given, as far as it reaches. -/
def writeSpans (data : Bytes) : MmapRingBufferImpl :=
  if ring.full then ring
  else { ring with base := Lib.overwrite ring.base ring.writeIndex (data.take ring.writable) }

def produce (length : Nat) : MmapRingBufferImpl :=
  if length = 0 ∨ ring.capacity = 0 then ring
  else
    let actual := min length ring.writable
    let writeIndex := ring.writeIndex + actual
    { ring with
      writeIndex := if ring.capacity ≤ writeIndex then writeIndex - ring.capacity else writeIndex
      size := ring.size + actual }

def consume (length : Nat) : MmapRingBufferImpl :=
  if length = 0 ∨ ring.capacity = 0 then ring
  else
    let actual := min length ring.readable
    let readIndex := ring.readIndex + actual
    let ring := { ring with
      readIndex := if ring.capacity ≤ readIndex then readIndex - ring.capacity else readIndex
      size := ring.size - actual }
    if ring.size = 0 then { ring with readIndex := 0, writeIndex := 0 } else ring

def clear : MmapRingBufferImpl :=
  { ring with readIndex := 0, writeIndex := 0, size := 0 }

def tryWriteBatch (data : Bytes) : MmapRingBufferImpl × Nat :=
  if data = [] ∨ ring.full then (ring, 0)
  else
    let written := min data.length ring.writable
    let base := Lib.overwrite ring.base ring.writeIndex (data.take written)
    (({ ring with base := base } : MmapRingBufferImpl).produce written, written)

def tryReadBatch (length : Nat) : MmapRingBufferImpl × Bytes :=
  if length = 0 ∨ ring.empty then (ring, [])
  else
    let readBytes := min length ring.readable
    (ring.consume readBytes, Lib.window ring.base ring.readIndex readBytes)

end MmapRingBufferImpl

/-! ## Operations -/

inductive RingOperation
  | tryWriteBatch (data : Bytes)
  | tryReadBatch (length : Nat)
  /-- The caller writes into the spans, then calls `produce`. -/
  | writeSpans (data : Bytes) (produced : Nat)
  | consume (length : Nat)
  | clear
  deriving DecidableEq, Repr

inductive RingResult
  | none
  | written (length : Nat)
  | read (data : Bytes)
  deriving DecidableEq, Repr

def VectorRingBufferImpl.step (ring : VectorRingBufferImpl) :
    RingOperation → VectorRingBufferImpl × RingResult
  | .tryWriteBatch data => ((ring.tryWriteBatch data).1, .written (ring.tryWriteBatch data).2)
  | .tryReadBatch length => ((ring.tryReadBatch length).1, .read (ring.tryReadBatch length).2)
  | .writeSpans data produced => ((ring.writeSpans data).produce produced, .none)
  | .consume length => (ring.consume length, .none)
  | .clear => (ring.clear, .none)

def MmapRingBufferImpl.step (ring : MmapRingBufferImpl) :
    RingOperation → MmapRingBufferImpl × RingResult
  | .tryWriteBatch data => ((ring.tryWriteBatch data).1, .written (ring.tryWriteBatch data).2)
  | .tryReadBatch length => ((ring.tryReadBatch length).1, .read (ring.tryReadBatch length).2)
  | .writeSpans data produced => ((ring.writeSpans data).produce produced, .none)
  | .consume length => (ring.consume length, .none)
  | .clear => (ring.clear, .none)

def VectorRingBufferImpl.run (ring : VectorRingBufferImpl) :
    List RingOperation → VectorRingBufferImpl × List RingResult
  | [] => (ring, [])
  | operation :: operations =>
    let (ring, result) := ring.step operation
    let (ring, results) := ring.run operations
    (ring, result :: results)

def MmapRingBufferImpl.run (ring : MmapRingBufferImpl) :
    List RingOperation → MmapRingBufferImpl × List RingResult
  | [] => (ring, [])
  | operation :: operations =>
    let (ring, result) := ring.step operation
    let (ring, results) := ring.run operations
    (ring, result :: results)

/-! ## The bounded queue -/

/-- What an operation does to the bytes of a queue. A caller that produces more than it has written
gets what the spans hold; `spans` is all of it. -/
inductive QueueStep (capacity : Nat) : Bytes → RingOperation → Bytes → RingResult → Prop
  | write (queue data : Bytes) :
    QueueStep capacity queue (.tryWriteBatch data)
      (queue ++ data.take (capacity - queue.length))
      (.written (min data.length (capacity - queue.length)))
  | read (queue : Bytes) (length : Nat) :
    QueueStep capacity queue (.tryReadBatch length) (queue.drop length) (.read (queue.take length))
  | produce {queue data spans : Bytes} (produced : Nat) :
    spans.length = capacity - queue.length → data.take (capacity - queue.length) <+: spans →
    QueueStep capacity queue (.writeSpans data produced) (queue ++ spans.take produced) .none
  | consume (queue : Bytes) (length : Nat) :
    QueueStep capacity queue (.consume length) (queue.drop length) .none
  | clear (queue : Bytes) : QueueStep capacity queue .clear [] .none

inductive QueueRun (capacity : Nat) :
    Bytes → List RingOperation → Bytes → List RingResult → Prop
  | nil (queue : Bytes) : QueueRun capacity queue [] queue []
  | cons {queue queue' queue'' : Bytes} {operation : RingOperation} {result : RingResult}
      {operations : List RingOperation} {results : List RingResult} :
    QueueStep capacity queue operation queue' result →
    QueueRun capacity queue' operations queue'' results →
    QueueRun capacity queue (operation :: operations) queue'' (result :: results)

/-! ## What the copies do -/

theorem copyOut_eq (spans : List Bytes) (toRead : Nat) :
    copyOut spans toRead = spans.flatten.take toRead := by
  induction spans generalizing toRead with
  | nil => rw [copyOut, flatten_nil, take_nil]
  | cons span spans ih =>
  rw [copyOut, flatten_cons, take_append, ih]
  split
  · next hzero => simp [hzero]
  rfl

theorem copyInto_one (memory : Bytes) (offset length : Nat) (data : Bytes) :
    copyInto memory [(offset, length)] data =
      (Lib.splice memory offset (data.take length), (data.take length).length) := by
  rw [copyInto]
  split
  · next hnil =>
    rw [hnil, take_nil, Lib.splice, append_nil, length_nil, Nat.add_zero, take_append_drop]
  simp only [copyInto, Nat.add_zero]

theorem copyInto_two (memory : Bytes) (offset first second : Nat) (data : Bytes) :
    copyInto memory [(offset, first), (0, second)] data =
      (Lib.splice (Lib.splice memory offset (data.take first)) 0 ((data.drop first).take second),
        (data.take (first + second)).length) := by
  rw [copyInto]
  split
  · next hnil =>
    rw [hnil, take_nil, take_nil, drop_nil, take_nil]
    simp [Lib.splice]
  simp only [copyInto_one, length_take, length_drop]
  congr 1
  omega

/-! ## The backends are ring buffers -/

section

variable (ring : RingBuffer)

theorem RingBuffer.writeIndex_lt : ring.writeIndex < ring.buffer.length := by
  rw [ring.writeIndex_eq]
  exact Nat.mod_lt _ ring.capacity_pos

theorem RingBuffer.size_add_writable : ring.size + ring.writable = ring.buffer.length := by
  have hsize := ring.size_le
  have hwritable : ring.writable = ring.buffer.length - ring.size := rfl
  omega

def RingBuffer.produceUpTo (n : Nat) : RingBuffer :=
  ring.produce (min n ring.writable) (Nat.min_le_right _ _)

/-- What an operation of a backend comes to. -/
def RingBuffer.step (ring : RingBuffer) : RingOperation → RingBuffer × RingResult
  | .tryWriteBatch data => (ring.receive data, .written (min data.length ring.writable))
  | .tryReadBatch length =>
    if length = 0 ∨ ring.empty then (ring, .read [])
    else (ring.consume (min length ring.readable), .read (ring.contents.take length))
  | .writeSpans data produced => ((ring.fill (data.take ring.writable)).produceUpTo produced, .none)
  | .consume length => (ring.consume length, .none)
  | .clear => (ring.clear, .none)

theorem RingBuffer.produce_congr {ring : RingBuffer} (h : m = n) (hm : m ≤ ring.writable)
    (hn : n ≤ ring.writable) : ring.produce m hm = ring.produce n hn := by
  subst h
  rfl

theorem RingBuffer.receive_eq (data : Bytes) : ring.receive data =
    (ring.fill (data.take ring.writable)).produceUpTo (min data.length ring.writable) := by
  have hlen : (data.take ring.writable).length = min (min data.length ring.writable)
      (ring.fill (data.take ring.writable)).writable := by
    rw [RingBuffer.writable_fill, length_take]
    omega
  exact RingBuffer.produce_congr hlen (hlen ▸ Nat.min_le_right _ _) (Nat.min_le_right _ _)

/-- Bytes cut off at the end of the buffer, once or twice. -/
theorem RingBuffer.take_data (data : Bytes) :
    data.take (min data.length ring.writable) = data.take ring.writable := by
  rw [take_eq_take_iff]
  omega

/-- Nothing is written if there is nothing, or no room for it. -/
theorem RingBuffer.fits_zero {data : Bytes} (h : data = [] ∨ ring.size = ring.buffer.length) :
    min data.length ring.writable = 0 ∧ data.take ring.writable = [] := by
  have hsum : ring.size + ring.writable = ring.buffer.length := ring.size_add_writable
  have hzero : min data.length ring.writable = 0 := by
    rcases h with rfl | hfull
    · exact Nat.zero_min _
    omega
  exact ⟨hzero, List.length_eq_zero_iff.1 (by rw [length_take, Nat.min_comm, hzero])⟩

theorem RingBuffer.take_contents (n : Nat) :
    ring.contents.take (min n ring.readable) = ring.contents.take n := by
  have hlen := ring.length_contents
  rw [← hlen, ← take_take, take_length]

namespace VectorRingBufferImpl

def ofRing : VectorRingBufferImpl := { ring with }

/-- The new index is the remainder, also for nothing. -/
theorem produceUpTo_eq (n : Nat) : ofRing (ring.produceUpTo n) =
    ⟨ring.buffer, ring.readIndex, (ring.writeIndex + min n ring.writable) % ring.buffer.length,
      ring.size + min n ring.writable⟩ := by
  have hle : min n ring.writable ≤ ring.buffer.length :=
    Nat.le_trans (Nat.min_le_right _ _) (Nat.sub_le _ _)
  rw [← RingBuffer.advance_eq ring.backend ring.writeIndex_lt hle]
  rfl

theorem produce_ofRing (n : Nat) : (ofRing ring).produce n = ofRing (ring.produceUpTo n) := by
  rw [produceUpTo_eq]
  unfold produce
  split
  · next h =>
    obtain rfl : n = 0 := h.resolve_right (Nat.ne_of_gt ring.capacity_pos)
    rw [Nat.zero_min, Nat.add_zero, Nat.add_zero, Nat.mod_eq_of_lt ring.writeIndex_lt]
    rfl
  rfl

theorem consume_ofRing (n : Nat) : (ofRing ring).consume n = ofRing (ring.consume n) := by
  have hle : min n ring.readable ≤ ring.buffer.length :=
    Nat.le_trans (Nat.min_le_right _ _) ring.size_le
  have hmoved := RingBuffer.advance_eq ring.backend ring.readIndex_lt hle
  have hcap : (ofRing ring).capacity = ring.capacity := rfl
  unfold consume RingBuffer.consume
  rw [hcap]
  by_cases h : n = 0 ∨ ring.capacity = 0
  · rw [if_pos h, if_pos h]
  rw [if_neg h, if_neg h]
  have hsize : (ofRing ring).size - min n (ofRing ring).readable =
      (ring.skip (min n ring.readable) (Nat.min_le_right _ _)).size := rfl
  dsimp only
  rw [hsize]
  split
  · next hdrained =>
    rw [hdrained]
    rfl
  have hindex : ((ofRing ring).readIndex + min n (ofRing ring).readable) % ring.capacity =
      (ring.skip (min n ring.readable) (Nat.min_le_right _ _)).readIndex := hmoved.symm
  rw [hindex]
  rfl

/-- What does not fit into the spans stays with the caller. -/
theorem copyInto_writeSegments (data : Bytes) :
    copyInto ring.buffer (ofRing ring).writeSegments data =
      (Lib.overwrite ring.buffer ring.writeIndex (data.take ring.writable),
        min data.length ring.writable) := by
  have hsum : ring.size + ring.writable = ring.buffer.length := ring.size_add_writable
  have hwritable : (ofRing ring).writable = ring.writable := rfl
  have hcap : (ofRing ring).capacity = ring.buffer.length := rfl
  have hindex : (ofRing ring).writeIndex = ring.writeIndex := rfl
  have hlen : (data.take ring.writable).length ≤ ring.buffer.length := by
    rw [length_take]
    omega
  unfold writeSegments
  rw [hwritable, hcap, hindex]
  split
  · next hfull =>
    have hsize : ring.size = ring.buffer.length := of_decide_eq_true hfull
    have hzero : ring.writable = 0 := by omega
    rw [copyInto, hzero, take_zero, Lib.overwrite_nil, Nat.min_zero]
  dsimp only
  split
  · next hone =>
    have hfirst : min ring.writable (ring.buffer.length - ring.writeIndex) = ring.writable := by
      omega
    have hfits : ring.writeIndex + (data.take ring.writable).length ≤ ring.buffer.length := by
      have := ring.writeIndex_lt
      rw [length_take]
      omega
    rw [hfirst, copyInto_one, Lib.overwrite_eq_splice hfits, length_take, Nat.min_comm]
  next htwo =>
  have hfirst : min ring.writable (ring.buffer.length - ring.writeIndex) =
      ring.buffer.length - ring.writeIndex := by omega
  have hboth : ring.buffer.length - ring.writeIndex +
      (ring.writable - (ring.buffer.length - ring.writeIndex)) = ring.writable := by omega
  rw [hfirst, copyInto_two, Lib.overwrite_eq_splice_splice ring.writeIndex_lt hlen, hboth,
    length_take, Nat.min_comm, take_take, drop_take,
    Nat.min_eq_left (by omega : ring.buffer.length - ring.writeIndex ≤ ring.writable)]

theorem writeSpans_ofRing (data : Bytes) :
    (ofRing ring).writeSpans data = ofRing (ring.fill (data.take ring.writable)) := by
  have hcopy := copyInto_writeSegments ring data
  unfold writeSpans
  rw [show (ofRing ring).buffer = ring.buffer from rfl, hcopy]
  rfl

theorem tryWriteBatch_ofRing (data : Bytes) : (ofRing ring).tryWriteBatch data =
    (ofRing (ring.receive data), min data.length ring.writable) := by
  have hcopy := copyInto_writeSegments ring (data.take ring.writable)
  have hlen : min (data.take ring.writable).length ring.writable =
      min data.length ring.writable := by
    rw [length_take]
    omega
  rw [take_take, Nat.min_self, hlen] at hcopy
  rw [RingBuffer.receive_eq, ← produce_ofRing]
  unfold tryWriteBatch
  split
  · next h =>
    obtain ⟨hzero, hnil⟩ := ring.fits_zero (h.imp_right of_decide_eq_true)
    rw [hzero, hnil, produce, if_pos (.inl rfl), RingBuffer.fill]
    simp only [Lib.overwrite_nil]
  have hwritable : (ofRing ring).writable = ring.writable := rfl
  have hbuffer : (ofRing ring).buffer = ring.buffer := rfl
  simp only [hwritable, hbuffer, ring.take_data, hcopy]
  rfl

theorem readSpans_ofRing : (ofRing ring).readSpans.flatten = ring.contents := by
  have hspans : (ofRing ring).readSpans = { ring with backend := .Vector }.getReadIovecs := by
    unfold readSpans readSegments RingBuffer.getReadIovecs
    refine (apply_ite _ _ _ _).trans (if_congr Iff.rfl rfl ?_)
    exact (apply_ite _ _ _ _).trans (if_congr Iff.rfl rfl rfl)
  rw [hspans, RingBuffer.flatten_getReadIovecs]
  rfl

theorem tryReadBatch_ofRing (n : Nat) : (ofRing ring).step (.tryReadBatch n) =
    (ofRing (ring.step (.tryReadBatch n)).1, (ring.step (.tryReadBatch n)).2) := by
  have htarget : copyOut (ofRing ring).readSpans (min n (ofRing ring).readable) =
      ring.contents.take n := by
    rw [copyOut_eq, readSpans_ofRing]
    exact ring.take_contents n
  have hlen : (ring.contents.take n).length = min n ring.readable := by
    rw [length_take, ring.length_contents]
  have hempty : (ofRing ring).empty = ring.empty := rfl
  unfold step RingBuffer.step tryReadBatch
  rw [hempty]
  by_cases h : n = 0 ∨ ring.empty
  · simp only [if_pos h]
  simp only [if_neg h, htarget, hlen, consume_ofRing]

theorem step_ofRing (operation : RingOperation) : (ofRing ring).step operation =
    (ofRing (ring.step operation).1, (ring.step operation).2) := by
  cases operation with
  | tryWriteBatch data =>
    rw [step, tryWriteBatch_ofRing]
    rfl
  | tryReadBatch n => exact tryReadBatch_ofRing ring n
  | writeSpans data produced =>
    rw [step, writeSpans_ofRing, produce_ofRing]
    rfl
  | consume n =>
    rw [step, consume_ofRing]
    rfl
  | clear => rfl

end VectorRingBufferImpl

namespace MmapRingBufferImpl

def ofRing : MmapRingBufferImpl :=
  ⟨ring.buffer, ring.buffer.length, ring.readIndex, ring.writeIndex, ring.size⟩

/-- The conditional subtraction is the remainder, since an index passes the end at most once. -/
theorem wrapped_eq (hindex : index < ring.buffer.length) (hn : n ≤ ring.buffer.length) :
    (if ring.buffer.length ≤ index + n then index + n - ring.buffer.length else index + n) =
      RingBuffer.advance ring.backend index n ring.buffer.length :=
  (RingBuffer.advance_eq .Mmap hindex hn).trans (RingBuffer.advance_eq ring.backend hindex hn).symm

theorem produce_ofRing (n : Nat) : (ofRing ring).produce n = ofRing (ring.produceUpTo n) := by
  have hle : min n ring.writable ≤ ring.buffer.length :=
    Nat.le_trans (Nat.min_le_right _ _) (Nat.sub_le _ _)
  have hwrapped := wrapped_eq ring ring.writeIndex_lt hle
  have hproduced : ofRing (ring.produceUpTo n) = ⟨ring.buffer, ring.buffer.length, ring.readIndex,
      RingBuffer.advance ring.backend ring.writeIndex (min n ring.writable) ring.buffer.length,
      ring.size + min n ring.writable⟩ := rfl
  rw [hproduced, ← hwrapped]
  unfold produce
  split
  · next h =>
    obtain rfl : n = 0 := h.resolve_right (Nat.ne_of_gt ring.capacity_pos)
    rw [Nat.zero_min, Nat.add_zero, Nat.add_zero, if_neg (Nat.not_le.2 ring.writeIndex_lt)]
    rfl
  rfl

theorem consume_ofRing (n : Nat) : (ofRing ring).consume n = ofRing (ring.consume n) := by
  have hle : min n ring.readable ≤ ring.buffer.length :=
    Nat.le_trans (Nat.min_le_right _ _) ring.size_le
  have hwrapped := wrapped_eq ring ring.readIndex_lt hle
  have hcap : (ofRing ring).capacity = ring.capacity := rfl
  unfold consume RingBuffer.consume
  rw [hcap]
  by_cases h : n = 0 ∨ ring.capacity = 0
  · rw [if_pos h, if_pos h]
  rw [if_neg h, if_neg h]
  have hsize : (ofRing ring).size - min n (ofRing ring).readable =
      (ring.skip (min n ring.readable) (Nat.min_le_right _ _)).size := rfl
  dsimp only
  rw [hsize]
  split
  · next hdrained =>
    rw [hdrained]
    rfl
  have hindex : (if ring.capacity ≤ (ofRing ring).readIndex + min n (ofRing ring).readable then
      (ofRing ring).readIndex + min n (ofRing ring).readable - ring.capacity
      else (ofRing ring).readIndex + min n (ofRing ring).readable) =
      (ring.skip (min n ring.readable) (Nat.min_le_right _ _)).readIndex := hwrapped
  rw [hindex]
  rfl

theorem writeSpans_ofRing (data : Bytes) :
    (ofRing ring).writeSpans data = ofRing (ring.fill (data.take ring.writable)) := by
  have hfilled : ofRing (ring.fill (data.take ring.writable)) =
      { ofRing ring with
        base := Lib.overwrite ring.buffer ring.writeIndex (data.take ring.writable) } := by
    unfold ofRing RingBuffer.fill
    rw [Lib.length_overwrite]
  rw [hfilled]
  unfold writeSpans
  split
  · next hfull =>
    have hsize : ring.size = ring.buffer.length := of_decide_eq_true hfull
    have hsum : ring.size + ring.writable = ring.buffer.length := ring.size_add_writable
    have hzero : ring.writable = 0 := by omega
    rw [hzero, take_zero, Lib.overwrite_nil]
    rfl
  rfl

theorem readSpans_ofRing : (ofRing ring).readSpans.flatten = ring.contents := by
  have hspans : (ofRing ring).readSpans = { ring with backend := .Mmap }.getReadIovecs := rfl
  rw [hspans, RingBuffer.flatten_getReadIovecs]
  rfl

theorem tryWriteBatch_ofRing (data : Bytes) : (ofRing ring).tryWriteBatch data =
    (ofRing (ring.receive data), min data.length ring.writable) := by
  rw [RingBuffer.receive_eq, ← produce_ofRing, ← writeSpans_ofRing]
  unfold tryWriteBatch writeSpans
  split
  · next h =>
    obtain ⟨hzero, hnil⟩ := ring.fits_zero (h.imp_right of_decide_eq_true)
    have hwritable : (ofRing ring).writable = ring.writable := rfl
    rw [hwritable, hzero, hnil, Lib.overwrite_nil, produce, if_pos (.inl rfl), ite_self]
  next h =>
  have hwritable : (ofRing ring).writable = ring.writable := rfl
  rw [if_neg (not_or.1 h).2, hwritable, ← ring.take_data]

theorem tryReadBatch_ofRing (n : Nat) : (ofRing ring).step (.tryReadBatch n) =
    (ofRing (ring.step (.tryReadBatch n)).1, (ring.step (.tryReadBatch n)).2) := by
  have hle : min n ring.readable ≤ ring.size := Nat.min_le_right _ _
  have htarget : Lib.window ring.buffer ring.readIndex (min n ring.readable) =
      ring.contents.take n := by
    rw [← ring.take_contents n]
    exact (Lib.take_window hle).symm
  have hempty : (ofRing ring).empty = ring.empty := rfl
  unfold step RingBuffer.step tryReadBatch
  rw [hempty]
  by_cases h : n = 0 ∨ ring.empty
  · simp only [if_pos h]
  have hreadable : (ofRing ring).readable = ring.readable := rfl
  have hwin : Lib.window (ofRing ring).base (ofRing ring).readIndex (min n ring.readable) =
      ring.contents.take n := htarget
  simp only [if_neg h, hreadable, hwin, consume_ofRing]

theorem step_ofRing (operation : RingOperation) : (ofRing ring).step operation =
    (ofRing (ring.step operation).1, (ring.step operation).2) := by
  cases operation with
  | tryWriteBatch data =>
    rw [step, tryWriteBatch_ofRing]
    rfl
  | tryReadBatch n => exact tryReadBatch_ofRing ring n
  | writeSpans data produced =>
    rw [step, writeSpans_ofRing, produce_ofRing]
    rfl
  | consume n =>
    rw [step, consume_ofRing]
    rfl
  | clear => rfl

end MmapRingBufferImpl

end

/-! ## A ring buffer is a queue -/

namespace RingBuffer

variable (ring : RingBuffer)

/-- What is written into the spans leaves the bytes that are held as they are, and is what a `produce`
adds to them first. -/
theorem contents_writeSpans (data : Bytes) :
    (ring.fill (data.take ring.writable)).contents = ring.contents ∧
      ∃ spans : Bytes, spans.length = ring.writable ∧ data.take ring.writable <+: spans ∧
        ∀ n, ((ring.fill (data.take ring.writable)).produceUpTo n).contents =
          ring.contents ++ spans.take n := by
  let filled := ring.fill (data.take ring.writable)
  have hsum : ring.size + ring.writable = ring.buffer.length := ring.size_add_writable
  have hlen : filled.buffer.length = ring.buffer.length := Lib.length_overwrite ..
  have hdata : (data.take ring.writable).length ≤ ring.writable := length_take_le ..
  obtain ⟨hkept, hprefix⟩ :=
    Lib.window_overwrite_behind ring.readIndex_lt hdata (Nat.le_of_eq hsum)
  rw [← ring.writeIndex_eq] at hkept hprefix
  refine ⟨hkept, Lib.window filled.buffer ring.writeIndex ring.writable, ?_, hprefix, fun n => ?_⟩
  · refine Lib.length_window ?_ ?_
    · rw [hlen]
      exact Nat.le_of_lt ring.writeIndex_lt
    omega
  have hn : min n ring.writable ≤ ring.writable := Nat.min_le_right _ _
  have hwritable : filled.writable = ring.writable := ring.writable_fill _
  have hcont : (filled.produceUpTo n).contents =
      Lib.window filled.buffer ring.readIndex (ring.size + min n filled.writable) := rfl
  have hsplit := @Lib.window_append _ filled.buffer ring.readIndex (min n ring.writable) ring.size
    (by rw [hlen]; exact ring.readIndex_lt) (by omega)
  have hindex : (ring.readIndex + ring.size) % filled.buffer.length = ring.writeIndex := by
    rw [hlen, ring.writeIndex_eq]
  have hspare : (Lib.window filled.buffer ring.writeIndex ring.writable).take n =
      Lib.window filled.buffer ring.writeIndex (min n ring.writable) := by
    rw [← Lib.take_window hn, Lib.window, take_take, take_take]
    congr 1
    omega
  rw [hcont, hwritable, ← hsplit, hindex, hspare]
  exact congrArg (· ++ _) hkept

theorem contents_receive_take (data : Bytes) :
    (ring.receive data).contents = ring.contents ++ data.take ring.writable := by
  obtain ⟨-, spans, hlen, hprefix, hproduce⟩ := ring.contents_writeSpans data
  have htake := List.prefix_iff_eq_take.1 hprefix
  rw [length_take, Nat.min_comm] at htake
  rw [receive_eq, hproduce, ← htake]

theorem step_capacity (operation : RingOperation) :
    (ring.step operation).1.capacity = ring.capacity := by
  cases operation with
  | tryWriteBatch data => exact ring.capacity_receive data
  | tryReadBatch length =>
    rw [step]
    split
    · rfl
    exact ring.capacity_consume _
  | writeSpans data produced => exact Lib.length_overwrite ..
  | consume length => exact ring.capacity_consume length
  | clear => rfl

theorem step_queue (operation : RingOperation) :
    QueueStep ring.capacity ring.contents operation (ring.step operation).1.contents
      (ring.step operation).2 := by
  have hwritable : ring.capacity - ring.contents.length = ring.writable := by
    rw [ring.length_contents]
    rfl
  cases operation with
  | tryWriteBatch data =>
    have h := @QueueStep.write ring.capacity ring.contents data
    rw [hwritable, ← ring.contents_receive_take data] at h
    exact h
  | tryReadBatch length =>
    have h := @QueueStep.read ring.capacity ring.contents length
    rw [step]
    split
    · next hnone =>
      have hboth : ring.contents.drop length = ring.contents ∧ ring.contents.take length = [] := by
        rcases hnone with rfl | hempty
        · exact ⟨drop_zero, take_zero⟩
        have hlen := ring.length_contents
        have hreadable : ring.readable = 0 := of_decide_eq_true hempty
        have hnil : ring.contents = [] := List.length_eq_zero_iff.1 (hlen.trans hreadable)
        rw [hnil, drop_nil, take_nil]
        exact ⟨rfl, rfl⟩
      rw [hboth.1, hboth.2] at h
      exact h
    have hdrop : (ring.consume (min length ring.readable)).contents = ring.contents.drop length := by
      rw [ring.contents_consume, drop_eq_drop_iff, ring.length_contents]
      omega
    rw [← hdrop] at h
    exact h
  | writeSpans data produced =>
    obtain ⟨-, spans, hlen, hprefix, hproduce⟩ := ring.contents_writeSpans data
    rw [← hwritable] at hlen hprefix
    have h := QueueStep.produce produced hlen hprefix
    rw [← hproduce produced] at h
    exact h
  | consume length =>
    have h := @QueueStep.consume ring.capacity ring.contents length
    rw [← ring.contents_consume length] at h
    exact h
  | clear =>
  have h := @QueueStep.clear ring.capacity ring.contents
  rw [← ring.contents_clear] at h
  exact h

end RingBuffer

/-! ## Runs of both backends -/

/-- Both backends hold the bytes of a queue. -/
structure HoldQueue (capacity : Nat) (queue : Bytes) (vector : VectorRingBufferImpl)
    (mmap : MmapRingBufferImpl) : Prop where
  vectorSpans : vector.readSpans.flatten = queue
  mmapSpans : mmap.readSpans.flatten = queue
  vectorReadable : vector.readable = queue.length
  mmapReadable : mmap.readable = queue.length
  vectorTotal : vector.readable + vector.writable = capacity
  mmapTotal : mmap.readable + mmap.writable = capacity
  /-- Writing into the spans does not touch the unread bytes. -/
  vectorKept : ∀ data, (vector.writeSpans data).readSpans.flatten = queue
  mmapKept : ∀ data, (mmap.writeSpans data).readSpans.flatten = queue

/-- Both backends are the same ring buffer, or have no memory. -/
inductive Simulated : Nat → Bytes → VectorRingBufferImpl → MmapRingBufferImpl → Prop
  | ring {capacity : Nat} {queue : Bytes} {mmap : MmapRingBufferImpl} (ring : RingBuffer) :
    ring.capacity = capacity → ring.contents = queue → .ofRing ring = mmap →
    Simulated capacity queue (.ofRing ring) mmap
  | nothing : Simulated 0 [] (.create 0) (.create 0)

theorem Simulated.create (capacity : Nat) :
    Simulated capacity [] (.create capacity) (.create capacity) := by
  by_cases hzero : capacity = 0
  · subst hzero
    exact .nothing
  have hlen : (List.replicate capacity (0 : UInt8)).length = capacity := length_replicate
  let ring : RingBuffer :=
    { backend := .Vector
      buffer := List.replicate capacity 0
      readIndex := 0
      writeIndex := 0
      size := 0
      size_le := Nat.zero_le _
      readIndex_lt := by omega
      writeIndex_eq := (Nat.zero_mod _).symm }
  refine .ring ring hlen Lib.window_zero ?_
  rw [MmapRingBufferImpl.ofRing, MmapRingBufferImpl.create, hlen]

theorem Simulated.holdQueue (h : Simulated capacity queue vector mmap) :
    HoldQueue capacity queue vector mmap := by
  cases h with
  | ring ring hcap hcont hmmap =>
    subst hcap hcont hmmap
    refine ⟨VectorRingBufferImpl.readSpans_ofRing ring, MmapRingBufferImpl.readSpans_ofRing ring,
      ring.length_contents.symm, ring.length_contents.symm, ring.size_add_writable,
      ring.size_add_writable, fun data => ?_, fun data => ?_⟩
    · rw [VectorRingBufferImpl.writeSpans_ofRing, VectorRingBufferImpl.readSpans_ofRing]
      exact (ring.contents_writeSpans data).1
    rw [MmapRingBufferImpl.writeSpans_ofRing, MmapRingBufferImpl.readSpans_ofRing]
    exact (ring.contents_writeSpans data).1
  | nothing => exact ⟨rfl, rfl, rfl, rfl, rfl, rfl, fun _ => rfl, fun _ => rfl⟩

/-- What an operation returns that finds no memory. -/
def RingOperation.refusal : RingOperation → RingResult
  | .tryWriteBatch _ => .written 0
  | .tryReadBatch _ => .read []
  | _ => .none

variable (operation : RingOperation)

theorem VectorRingBufferImpl.step_nothing :
    (create 0).step operation = (create 0, operation.refusal) := by
  cases operation with
  | tryWriteBatch data => rw [step, tryWriteBatch, if_pos (.inr rfl)]; rfl
  | tryReadBatch length => rw [step, tryReadBatch, if_pos (.inr rfl)]; rfl
  | writeSpans data produced => rw [step, produce, if_pos (.inr rfl)]; rfl
  | consume length => rw [step, consume, if_pos (.inr rfl)]; rfl
  | clear => rfl

theorem MmapRingBufferImpl.step_nothing :
    (create 0).step operation = (create 0, operation.refusal) := by
  cases operation with
  | tryWriteBatch data => rw [step, tryWriteBatch, if_pos (.inr rfl)]; rfl
  | tryReadBatch length => rw [step, tryReadBatch, if_pos (.inr rfl)]; rfl
  | writeSpans data produced => rw [step, produce, if_pos (.inr rfl)]; rfl
  | consume length => rw [step, consume, if_pos (.inr rfl)]; rfl
  | clear => rfl

theorem QueueStep.nothing :
    QueueStep 0 [] operation [] operation.refusal := by
  cases operation with
  | tryWriteBatch data => simpa [RingOperation.refusal] using @QueueStep.write 0 [] data
  | tryReadBatch length => simpa [RingOperation.refusal] using @QueueStep.read 0 [] length
  | writeSpans data produced =>
    simpa [RingOperation.refusal] using
      @QueueStep.produce 0 [] data [] produced rfl (prefix_refl _)
  | consume length => simpa [RingOperation.refusal] using @QueueStep.consume 0 [] length
  | clear => exact .clear []

theorem Simulated.step {capacity : Nat} {queue : Bytes} {vector : VectorRingBufferImpl}
    {mmap : MmapRingBufferImpl} (h : Simulated capacity queue vector mmap)
    (operation : RingOperation) : ∃ queue', (mmap.step operation).2 = (vector.step operation).2 ∧
      QueueStep capacity queue operation queue' (vector.step operation).2 ∧
      Simulated capacity queue' (vector.step operation).1 (mmap.step operation).1 := by
  cases h with
  | ring ring hcap hcont hmmap =>
    subst hcap hcont hmmap
    have hring := Simulated.ring (ring.step operation).1 (ring.step_capacity operation) rfl rfl
    rw [VectorRingBufferImpl.step_ofRing, MmapRingBufferImpl.step_ofRing]
    exact ⟨_, rfl, ring.step_queue operation, hring⟩
  | nothing =>
  rw [VectorRingBufferImpl.step_nothing, MmapRingBufferImpl.step_nothing]
  exact ⟨[], rfl, .nothing operation, .nothing⟩

/-- After the same operations both backends have returned the same values and hold the same bytes:
those of a bounded queue. -/
theorem run_holdQueue (capacity : Nat) (operations : List RingOperation) :
    let vector := (VectorRingBufferImpl.create capacity).run operations
    let mmap := (MmapRingBufferImpl.create capacity).run operations
    mmap.2 = vector.2 ∧ ∃ queue, QueueRun capacity [] operations queue vector.2 ∧
      HoldQueue capacity queue vector.1 mmap.1 := by
  have hrun {queue : Bytes} {vector : VectorRingBufferImpl} {mmap : MmapRingBufferImpl}
      (h : Simulated capacity queue vector mmap) : (mmap.run operations).2 = (vector.run operations).2 ∧
        ∃ queue', QueueRun capacity queue operations queue' (vector.run operations).2 ∧
          HoldQueue capacity queue' (vector.run operations).1 (mmap.run operations).1 := by
    induction operations generalizing queue vector mmap with
    | nil => exact ⟨rfl, queue, .nil queue, h.holdQueue⟩
    | cons operation operations ih =>
    obtain ⟨queue', hres, hstep, hnext⟩ := h.step operation
    obtain ⟨hresults, queue'', hqueue, hhold⟩ := ih hnext
    refine ⟨?_, queue'', .cons hstep hqueue, hhold⟩
    show (mmap.step operation).2 :: ((mmap.step operation).1.run operations).2 = _
    rw [hres, hresults]
    rfl
  exact hrun (.create capacity)

end Galay
