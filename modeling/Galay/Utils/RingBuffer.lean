import Galay.Lib.Circular
import Galay.Kernel.IoVec

/-!
# The ring buffer (`galay-utils/cache/ring_buffer.hpp`)

Both backends keep the same four values: the storage, the read and the write index and the number
of buffered bytes. The vector backend shows a wrapped region as two segments; the double mapping of
the mmap backend shows it as one. What a buffer holds for its readers is `contents`.
-/

namespace Galay

open List

inductive RingBufferBackend
  | Vector
  | Mmap
  deriving DecidableEq, Repr

/-- A buffer with its indices in range. The constructors never make one of capacity zero. -/
structure RingBuffer where
  backend : RingBufferBackend
  buffer : Bytes
  readIndex : Nat
  writeIndex : Nat
  size : Nat
  size_le : size ≤ buffer.length
  readIndex_lt : readIndex < buffer.length
  writeIndex_eq : writeIndex = (readIndex + size) % buffer.length

namespace RingBuffer

variable (ring : RingBuffer)

def capacity : Nat := ring.buffer.length
def readable : Nat := ring.size
def writable : Nat := ring.capacity - ring.size
def empty : Bool := ring.size = 0

/-- The bytes written and not yet consumed, in order. -/
def contents : Bytes := Lib.window ring.buffer ring.readIndex ring.size

def getReadIovecs : IoVecs :=
  if ring.empty then []
  else match ring.backend with
    | .Vector =>
      let first := min ring.readable (ring.capacity - ring.readIndex)
      let second := ring.readable - first
      let segment := (ring.buffer.drop ring.readIndex).take first
      if second = 0 then [segment] else [segment, ring.buffer.take second]
    | .Mmap => [((ring.buffer ++ ring.buffer).drop ring.readIndex).take ring.readable]

/-- An index moved on by `n`, as each backend computes it. -/
def advance (backend : RingBufferBackend) (index n capacity : Nat) : Nat :=
  match backend with
  | .Vector => (index + n) % capacity
  | .Mmap => if capacity ≤ index + n then index + n - capacity else index + n

theorem advance_eq (backend : RingBufferBackend) {capacity : Nat}
    (hindex : index < capacity) (hn : n ≤ capacity) :
    advance backend index n capacity = (index + n) % capacity := by
  cases backend with
  | Vector => rfl
  | Mmap =>
  simp only [advance]
  split
  · next hge => rw [Nat.mod_eq_sub_mod hge, Nat.mod_eq_of_lt (by omega)]
  next hlt => rw [Nat.mod_eq_of_lt (by omega)]

theorem capacity_pos : 0 < ring.buffer.length :=
  Nat.lt_of_le_of_lt (Nat.zero_le _) ring.readIndex_lt

def clear : RingBuffer :=
  { ring with
    readIndex := 0
    writeIndex := 0
    size := 0
    size_le := Nat.zero_le _
    readIndex_lt := ring.capacity_pos
    writeIndex_eq := by simp }

/-- The read index moved past the first `n` bytes. -/
def skip (n : Nat) (hn : n ≤ ring.readable) : RingBuffer :=
  have hn : n ≤ ring.size := hn
  have hmoved := advance_eq ring.backend ring.readIndex_lt (Nat.le_trans hn ring.size_le)
  { ring with
    readIndex := advance ring.backend ring.readIndex n ring.capacity
    size := ring.size - n
    size_le := Nat.le_trans (Nat.sub_le _ _) ring.size_le
    readIndex_lt := by
      rw [capacity, hmoved]
      exact Nat.mod_lt _ ring.capacity_pos
    writeIndex_eq := by
      rw [capacity, hmoved, ring.writeIndex_eq, Nat.mod_add_mod]
      congr 1
      omega }

/-- Consuming the last byte moves both indices back to the front. -/
def consume (length : Nat) : RingBuffer :=
  if length = 0 ∨ ring.capacity = 0 then ring
  else
    let rest := ring.skip (min length ring.readable) (Nat.min_le_right _ _)
    if rest.size = 0 then rest.clear else rest

/-- The write index moved past `n` bytes that have been written into the writable segments. -/
def produce (n : Nat) (hn : n ≤ ring.writable) : RingBuffer :=
  have hn : ring.size + n ≤ ring.buffer.length := by
    have hsize := ring.size_le
    have hwritable : n ≤ ring.buffer.length - ring.size := hn
    omega
  have hwrite : ring.writeIndex < ring.buffer.length := by
    rw [ring.writeIndex_eq]
    exact Nat.mod_lt _ ring.capacity_pos
  { ring with
    writeIndex := advance ring.backend ring.writeIndex n ring.capacity
    size := ring.size + n
    size_le := hn
    writeIndex_eq := by
      rw [capacity, advance_eq ring.backend hwrite (by omega), ring.writeIndex_eq, Nat.mod_add_mod,
        Nat.add_assoc] }

/-- The bytes that a read puts into the writable segments, from the write index on around the end
of the storage. -/
def fill (bytes : Bytes) : RingBuffer :=
  { ring with
    buffer := Lib.overwrite ring.buffer ring.writeIndex bytes
    size_le := by rw [Lib.length_overwrite]; exact ring.size_le
    readIndex_lt := by rw [Lib.length_overwrite]; exact ring.readIndex_lt
    writeIndex_eq := by rw [Lib.length_overwrite]; exact ring.writeIndex_eq }

@[simp] theorem writable_fill (bytes : Bytes) :
    (ring.fill bytes).writable = ring.writable := by
  simp only [writable, capacity, fill, Lib.length_overwrite]

/-- A read of `bytes`, cut off where the buffer is full. -/
def receive (bytes : Bytes) : RingBuffer :=
  let bytes := bytes.take ring.writable
  (ring.fill bytes).produce bytes.length (by
    rw [writable_fill, List.length_take]
    exact Nat.min_le_left _ _)

variable {ring}

/-! ## What a buffer holds -/

variable (ring : RingBuffer)

@[simp] theorem length_contents : ring.contents.length = ring.readable :=
  Lib.length_window (Nat.le_of_lt ring.readIndex_lt) ring.size_le

theorem flatten_getReadIovecs : ring.getReadIovecs.flatten = ring.contents := by
  unfold getReadIovecs
  split
  · next hempty =>
    have hsize : ring.size = 0 := by simpa [empty] using hempty
    rw [contents, hsize, Lib.window_zero, flatten_nil]
  cases ring.backend with
  | Vector =>
    have hle : ring.readIndex ≤ ring.buffer.length := Nat.le_of_lt ring.readIndex_lt
    have hfirst : (ring.buffer.drop ring.readIndex).take
        (min ring.readable (ring.capacity - ring.readIndex)) =
        (ring.buffer.drop ring.readIndex).take ring.size := by
      rw [← take_take, take_of_length_le (l := ring.buffer.drop ring.readIndex)
        (by rw [length_drop, capacity])]
      rfl
    have hsecond : ring.readable - min ring.readable (ring.capacity - ring.readIndex) =
        ring.size - (ring.buffer.length - ring.readIndex) := by
      rw [capacity, readable]
      omega
    simp only [hfirst, hsecond]
    rw [contents, Lib.window_eq_append hle]
    split
    · next hzero => simp [hzero]
    simp
  | Mmap => simp [contents, Lib.window, readable]

theorem getReadIovecs_eq_nil : ring.getReadIovecs = [] ↔ ring.contents = [] := by
  rw [← length_eq_zero_iff (l := ring.contents), length_contents]
  unfold getReadIovecs empty readable
  split
  · next h => simpa using h
  next h =>
  cases ring.backend with
  | Vector =>
    simp only
    split <;> simpa using h
  | Mmap => simpa using h

theorem contents_clear : ring.clear.contents = [] := Lib.window_zero

theorem contents_skip (hn : n ≤ ring.readable) :
    (ring.skip n hn).contents = ring.contents.drop n := by
  have hmoved := advance_eq ring.backend ring.readIndex_lt (Nat.le_trans hn ring.size_le)
  rw [contents, contents, ← Lib.window_advance ring.readIndex_lt ring.size_le hn, ← hmoved]
  rfl

/-- Consuming drops bytes from the front of what is held. -/
theorem contents_consume (length : Nat) :
    (ring.consume length).contents = ring.contents.drop length := by
  unfold consume
  split
  · next h =>
    rcases h with hzero | hcap
    · rw [hzero, drop_zero]
    exact absurd hcap (Nat.ne_of_gt ring.capacity_pos)
  have hskip : (ring.skip (min length ring.readable) (Nat.min_le_right _ _)).contents =
      ring.contents.drop length := by
    rw [contents_skip]
    rcases Nat.le_total length ring.readable with hle | hge
    · rw [Nat.min_eq_left hle]
    rw [Nat.min_eq_right hge, drop_eq_nil_of_le (by simp), drop_eq_nil_of_le (by simpa using hge)]
  simp only
  split
  · next hempty =>
    -- The indices moved back show the same, empty, contents.
    have hnil := hskip
    rw [contents, hempty, Lib.window_zero] at hnil
    rw [contents_clear, hnil]
  exact hskip

@[simp] theorem readable_consume (length : Nat) :
    (ring.consume length).readable = ring.readable - length := by
  rw [← length_contents, contents_consume, length_drop, length_contents]

/-- A read that fits is added behind what is held. -/
theorem contents_receive (h : bytes.length ≤ ring.writable) :
    (ring.receive bytes).contents = ring.contents ++ bytes := by
  have hfit : ring.size + bytes.length ≤ ring.buffer.length := by
    have hsize := ring.size_le
    have hwritable : bytes.length ≤ ring.buffer.length - ring.size := h
    omega
  have hwin := Lib.window_overwrite ring.readIndex_lt hfit
  rw [← ring.writeIndex_eq] at hwin
  have htake : bytes.take ring.writable = bytes := take_of_length_le h
  have hcont : (ring.receive bytes).contents =
      Lib.window (Lib.overwrite ring.buffer ring.writeIndex (bytes.take ring.writable))
        ring.readIndex (ring.size + (bytes.take ring.writable).length) := rfl
  rw [hcont, htake, hwin]
  rfl

@[simp] theorem capacity_receive (bytes : Bytes) : (ring.receive bytes).capacity = ring.capacity :=
  Lib.length_overwrite _ _ _

@[simp] theorem capacity_consume (length : Nat) : (ring.consume length).capacity = ring.capacity := by
  unfold consume
  split
  · rfl
  simp only
  split <;> rfl

end RingBuffer

end Galay
