import Galay.Utils.TypeRingBuffer
import Galay.Lib.Circular

/-!
# The typed ring buffer is a bounded queue

Each side goes by what it has last loaded of the other's cursor. Such a cursor is behind the real one by
no more than leaves room for what is held (`Holds.behind`, `Holds.ahead`), so that the distances do not
wrap around, and a side that is not refused anything by an old cursor loses nothing by it.
-/

namespace Galay.Utils

open List
open TypeRingBuffer

variable {T : Type*} {w s k : Nat} {ring : TypeRingBuffer T w} {queue : List T}

/-! ## Cursors -/

theorem toSize_ofNat (hw : k < w) (hs : k < s) (hn : n ≤ 2 ^ k) :
    toSize s (BitVec.ofNat w n) = n := by
  have hcursor : 2 ^ k < 2 ^ w := Nat.pow_lt_pow_right Nat.one_lt_two hw
  have hsize : 2 ^ k < 2 ^ s := Nat.pow_lt_pow_right Nat.one_lt_two hs
  rw [toSize, BitVec.toNat_ofNat, Nat.mod_eq_of_lt (hn.trans_lt hcursor),
    Nat.mod_eq_of_lt (hn.trans_lt hsize)]

theorem cursorDistance_add (hw : k < w) (hs : k < s) (older : BitVec w) (hn : n ≤ 2 ^ k) :
    cursorDistance s (older + BitVec.ofNat w n) older = n := by
  rw [cursorDistance, BitVec.add_comm, BitVec.add_sub_cancel, toSize_ofNat hw hs hn]

/-- The slots are numbered by the cursor modulo the capacity. -/
theorem toSize_and_mask (hs : k < s) (cursor : BitVec w) :
    toSize s cursor &&& (2 ^ k - 1) = cursor.toNat % 2 ^ k := by
  rw [Nat.and_two_pow_sub_one_eq_mod, toSize, Nat.mod_mod_of_dvd _ (Nat.pow_dvd_pow 2 (Nat.le_of_lt hs))]

theorem slotIndex_eq (hs : k < s) (cursor : BitVec w) (offset : Nat) :
    slotIndex s cursor offset (2 ^ k - 1) = (cursor.toNat % 2 ^ k + offset) % 2 ^ k := by
  have hdvd := Nat.pow_dvd_pow 2 (Nat.le_of_lt hs)
  rw [slotIndex, Nat.and_two_pow_sub_one_eq_mod, Nat.mod_mod_of_dvd _ hdvd, toSize, Nat.add_mod,
    Nat.mod_mod_of_dvd _ hdvd, Nat.mod_add_mod, Nat.add_mod_mod, Nat.mod_add_mod]

theorem toNat_add_mod (hw : k < w) (cursor : BitVec w) (n : Nat) :
    (cursor + BitVec.ofNat w n).toNat % 2 ^ k = (cursor.toNat % 2 ^ k + n) % 2 ^ k := by
  have hdvd := Nat.pow_dvd_pow 2 (Nat.le_of_lt hw)
  rw [BitVec.toNat_add, BitVec.toNat_ofNat, Nat.add_mod_mod, Nat.mod_mod_of_dvd _ hdvd,
    Nat.mod_add_mod]

/-! ## Slots -/

section

variable {slots : List (Option T)} {position : BitVec w} {values : List T} {offset : Nat}

theorem constructEach_eq (hs : k < s) (hlen : slots.length = 2 ^ k)
    (hvalues : values.length ≤ 2 ^ k) :
    constructEach s position (2 ^ k - 1) slots offset values =
      Lib.overwrite slots ((position.toNat % 2 ^ k + offset) % 2 ^ k) (values.map some) := by
  induction values generalizing slots offset with
  | nil => exact (Lib.overwrite_nil _ _).symm
  | cons value values ih =>
  rw [length_cons] at hvalues
  have hstart : (position.toNat % 2 ^ k + offset) % 2 ^ k < slots.length := by
    rw [hlen]
    exact Nat.mod_lt _ (Nat.two_pow_pos k)
  have hdata : (values.map some).length < slots.length := by
    rw [length_map, hlen]
    omega
  have hnext : ((position.toNat % 2 ^ k + offset) % 2 ^ k + 1) % 2 ^ k =
      (position.toNat % 2 ^ k + (offset + 1)) % 2 ^ k := by
    rw [Nat.mod_add_mod, Nat.add_assoc]
  rw [constructEach, slotIndex_eq hs, ih (by rw [length_set, hlen]) (by omega), map_cons,
    ← Lib.overwrite_cons hstart hdata, hlen, hnext]

/-- The loop moves the first elements of a window out, and leaves the others where they are. -/
theorem moveEach_eq (hs : k < s) (hlen : slots.length = 2 ^ k) {count : Nat}
    (hcount : count ≤ queue.length) (hqueue : queue.length ≤ 2 ^ k)
    (hsto : Lib.window slots ((position.toNat % 2 ^ k + offset) % 2 ^ k) queue.length =
      queue.map some) :
    ∃ slots', moveEach s position (2 ^ k - 1) slots offset count = some (queue.take count, slots') ∧
      slots'.length = 2 ^ k ∧
      Lib.window slots' ((position.toNat % 2 ^ k + offset + count) % 2 ^ k) (queue.length - count) =
        (queue.drop count).map some := by
  induction count generalizing slots offset queue with
  | zero => exact ⟨slots, rfl, hlen, hsto⟩
  | succ count ih =>
  rcases queue with _ | ⟨value, queue⟩
  · exact absurd hcount (Nat.not_succ_le_zero count)
  rw [length_cons] at hcount hqueue hsto
  have hstart : (position.toNat % 2 ^ k + offset) % 2 ^ k < slots.length := by
    rw [hlen]
    exact Nat.mod_lt _ (Nat.two_pow_pos k)
  have hrest : queue.length < slots.length := by omega
  have hnext : ((position.toNat % 2 ^ k + offset) % 2 ^ k + 1) % 2 ^ k =
      (position.toNat % 2 ^ k + (offset + 1)) % 2 ^ k := by
    rw [Nat.mod_add_mod, Nat.add_assoc]
  rw [Lib.window_succ hstart hrest, map_cons, hlen, hnext] at hsto
  obtain ⟨hval, hsto⟩ := List.cons.inj hsto
  have hset := Lib.window_set (x := none) hstart hrest
  rw [hlen, hnext, hsto] at hset
  obtain ⟨slots', hmoved, hlen', hsto'⟩ :=
    ih (by rw [length_set, hlen]) (by omega) (by omega) hset
  have hread : slots[(position.toNat % 2 ^ k + offset) % 2 ^ k]?.join = some value := by
    rw [getElem?_eq_getElem hstart, hval]
    rfl
  refine ⟨slots', ?_, hlen', ?_⟩
  · rw [moveEach, slotIndex_eq hs, hread, Option.bind_eq_bind, Option.bind_some, hmoved]
    rfl
  rw [drop_succ_cons, length_cons, Nat.add_sub_add_right, ← hsto']
  congr 2
  omega

theorem copyIn_eq (hfirst : first < slots.length) (hvalues : values.length ≤ slots.length) :
    copyIn slots first (min values.length (slots.length - first)) values =
      Lib.overwrite slots first (values.map some) := by
  rcases Nat.le_total values.length (slots.length - first) with hle | hge
  · rw [Nat.min_eq_left hle, Lib.overwrite_eq_splice (by rw [length_map]; omega), copyIn,
      take_length, Nat.sub_self, if_neg (by exact fun h => h rfl), Lib.splice, length_map]
  rw [Nat.min_eq_right hge,
    Lib.overwrite_eq_splice_splice hfirst (by rw [length_map]; exact hvalues), copyIn,
    ← map_take, ← map_drop, Lib.splice, Lib.splice, length_map, length_map,
    length_drop, take_zero, nil_append, Nat.zero_add]
  split
  · rfl
  next hzero =>
  have hnone : values.length - (slots.length - first) = 0 := not_not.mp hzero
  rw [hnone, drop_zero, drop_of_length_le (by omega : values.length ≤ slots.length - first)]
  rfl

theorem mapM_id_map_some (values : List T) : (values.map some).mapM id = some values := by
  induction values with
  | nil => rfl
  | cons value values ih =>
  rw [map_cons, mapM_cons, ih]
  rfl

theorem copyOut_eq {count : Nat} (hfirst : first < slots.length)
    (hsto : Lib.window slots first count = values.map some) :
    TypeRingBuffer.copyOut slots first (min count (slots.length - first)) count = some values := by
  have htake : (slots.drop first).take (min count (slots.length - first)) =
      (slots.drop first).take count := by
    rw [take_eq_take_iff, length_drop]
    omega
  rw [TypeRingBuffer.copyOut, htake, ← mapM_id_map_some values, ← hsto,
    Lib.window_eq_append (Nat.le_of_lt hfirst),
    show count - min count (slots.length - first) = count - (slots.length - first) by omega]

end

/-! ## What is held -/

/-- The ring of capacity `2 ^ k` holds the queue. -/
structure Holds (k : Nat) (ring : TypeRingBuffer T w) (queue : List T) : Prop where
  producerCapacity : ring.producerLocal.capacity = 2 ^ k
  producerMask : ring.producerLocal.mask = 2 ^ k - 1
  consumerCapacity : ring.consumerLocal.capacity = 2 ^ k
  consumerMask : ring.consumerLocal.mask = 2 ^ k - 1
  length : ring.slots.length = 2 ^ k
  producerPosition : ring.producerLocal.position = ring.tail
  consumerPosition : ring.consumerLocal.position = ring.head
  tail : ring.tail = ring.head + BitVec.ofNat w queue.length
  behind : ∃ stale, ring.head = ring.producerLocal.cachedPeer + BitVec.ofNat w stale ∧
    stale + queue.length ≤ 2 ^ k
  ahead : ∃ seen ≤ queue.length, ring.consumerLocal.cachedPeer = ring.head + BitVec.ofNat w seen
  stored : Lib.window ring.slots (ring.head.toNat % 2 ^ k) queue.length = queue.map some

theorem Holds.initial : Holds k (initializeLocalStorage (2 ^ k) : TypeRingBuffer T w) [] where
  producerCapacity := rfl
  producerMask := rfl
  consumerCapacity := rfl
  consumerMask := rfl
  length := length_replicate
  producerPosition := rfl
  consumerPosition := rfl
  tail := (BitVec.add_zero _).symm
  behind := ⟨0, (BitVec.add_zero _).symm, Nat.zero_le _⟩
  ahead := ⟨0, Nat.le_refl _, (BitVec.add_zero _).symm⟩
  stored := Lib.window_zero

namespace Holds

section

variable (h : Holds k ring queue)
include h

theorem le : queue.length ≤ 2 ^ k := by
  obtain ⟨stale, _, hle⟩ := h.behind
  omega

theorem start_lt : ring.head.toNat % 2 ^ k < ring.slots.length := by
  rw [h.length]
  exact Nat.mod_lt _ (Nat.two_pow_pos k)

theorem tail_mod (hw : k < w) :
    ring.tail.toNat % 2 ^ k = (ring.head.toNat % 2 ^ k + queue.length) % 2 ^ k := by
  rw [h.tail, toNat_add_mod hw]

theorem used_eq (hw : k < w) (hs : k < s) :
    ∃ stale, ring.head = ring.producerLocal.cachedPeer + BitVec.ofNat w stale ∧
      stale + queue.length ≤ 2 ^ k ∧ ring.used s = stale + queue.length := by
  obtain ⟨stale, hhead, hle⟩ := h.behind
  refine ⟨stale, hhead, hle, ?_⟩
  rw [used, h.producerPosition, h.tail, hhead, BitVec.add_assoc, ← BitVec.ofNat_add,
    cursorDistance_add hw hs _ hle]

theorem available_eq (hw : k < w) (hs : k < s) :
    ∃ seen ≤ queue.length, ring.consumerLocal.cachedPeer = ring.head + BitVec.ofNat w seen ∧
      ring.available s = seen := by
  obtain ⟨seen, hseen, hcached⟩ := h.ahead
  refine ⟨seen, hseen, hcached, ?_⟩
  rw [available, h.consumerPosition, hcached, cursorDistance_add hw hs _ (hseen.trans h.le)]

theorem refreshProducer : Holds k ring.refreshProducer queue :=
  { h with behind := ⟨0, (BitVec.add_zero _).symm, by rw [Nat.zero_add]; exact h.le⟩ }

theorem used_refreshProducer (hw : k < w) (hs : k < s) :
    ring.refreshProducer.used s = queue.length := by
  show cursorDistance s ring.producerLocal.position ring.head = _
  rw [h.producerPosition, h.tail, cursorDistance_add hw hs _ h.le]

theorem refreshConsumer : Holds k ring.refreshConsumer queue :=
  { h with ahead := ⟨queue.length, Nat.le_refl _, h.tail⟩ }

theorem available_refreshConsumer (hw : k < w) (hs : k < s) :
    ring.refreshConsumer.available s = queue.length := by
  show cursorDistance s ring.tail ring.consumerLocal.position = _
  rw [h.consumerPosition, h.tail, cursorDistance_add hw hs _ h.le]

/-- What has been written behind the queue belongs to it. -/
theorem publishTail (hw : k < w) (hs : k < s)
    (hroom : ring.used s + values.length ≤ 2 ^ k) {slots : List (Option T)} {count : Nat}
    (hcount : count = values.length)
    (hslots : slots = Lib.overwrite ring.slots (ring.tail.toNat % 2 ^ k) (values.map some)) :
    Holds k (ring.publishTail slots count) (queue ++ values) := by
  obtain ⟨stale, hhead, hle, hused⟩ := h.used_eq hw hs
  obtain ⟨seen, hseen, hcached⟩ := h.ahead
  subst hcount
  have hlen : slots.length = 2 ^ k := by rw [hslots, Lib.length_overwrite, h.length]
  exact
    { h with
      length := hlen
      producerPosition := rfl
      tail := by
        show ring.producerLocal.position + _ = ring.head + _
        rw [h.producerPosition, h.tail, BitVec.add_assoc, ← BitVec.ofNat_add, length_append]
      behind := ⟨stale, hhead, by rw [length_append]; omega⟩
      ahead := ⟨seen, by rw [length_append]; omega, hcached⟩
      stored := by
        show Lib.window slots (ring.head.toNat % 2 ^ k) _ = _
        have hfits : queue.length + (values.map some).length ≤ ring.slots.length := by
          rw [length_map, h.length]
          omega
        have hwritten := Lib.window_overwrite h.start_lt hfits
        rw [h.length, ← h.tail_mod hw, ← hslots, length_map, h.stored] at hwritten
        rw [length_append, hwritten, map_append] }

/-- The first elements have been given up. -/
theorem publishHead (hw : k < w) (hs : k < s) (havail : n ≤ ring.available s)
    {slots : List (Option T)} (hlen : slots.length = 2 ^ k)
    (hslots : Lib.window slots ((ring.head.toNat % 2 ^ k + n) % 2 ^ k) (queue.length - n) = (queue.drop n).map some)
    : Holds k (ring.publishHead slots n) (queue.drop n) := by
  obtain ⟨stale, hhead, hle⟩ := h.behind
  obtain ⟨seen, hseen, hcached, heq⟩ := h.available_eq hw hs
  rw [heq] at havail
  have hnext : ring.consumerLocal.position + BitVec.ofNat w n = ring.head + BitVec.ofNat w n := by
    rw [h.consumerPosition]
  exact
    { h with
      length := hlen
      consumerPosition := rfl
      tail := by
        show ring.tail = ring.consumerLocal.position + _ + _
        rw [hnext, BitVec.add_assoc, ← BitVec.ofNat_add, length_drop, h.tail,
          show n + (queue.length - n) = queue.length by omega]
      behind := ⟨stale + n, by
        show ring.consumerLocal.position + _ = ring.producerLocal.cachedPeer + _
        rw [hnext, hhead, BitVec.add_assoc, ← BitVec.ofNat_add], by
        rw [length_drop]
        omega⟩
      ahead := ⟨seen - n, by rw [length_drop]; omega, by
        show ring.consumerLocal.cachedPeer = ring.consumerLocal.position + _ + _
        rw [hnext, BitVec.add_assoc, ← BitVec.ofNat_add, hcached,
          show n + (seen - n) = seen by omega]⟩
      stored := by
        show Lib.window slots ((ring.consumerLocal.position + BitVec.ofNat w n).toNat % 2 ^ k) _ = _
        rw [hnext, toNat_add_mod hw, length_drop, hslots] }

end

end Holds

/-! ## The operations -/

/-- A call with its arguments. -/
inductive TypeRingCall (T : Type*)
  | tryWrite (value : T)
  | tryWriteBatch (values : List T)
  | tryRead
  | tryReadInto (output : T)
  | tryReadBatch (output : List T)

/-- What a call gives back. -/
inductive TypeRingReturn (T : Type*)
  | tryWrite (written : Bool)
  | tryWriteBatch (count : Nat)
  | tryRead (value : Option T)
  | tryReadInto (read : Bool) (output : T)
  | tryReadBatch (count : Nat) (output : List T)

def TypeRingBuffer.call (s : Nat) (triviallyCopyable : Bool) (ring : TypeRingBuffer T w) :
    TypeRingCall T → Option (TypeRingReturn T × TypeRingBuffer T w)
  | .tryWrite value =>
    let (written, ring) := ring.tryWrite s value
    some (.tryWrite written, ring)
  | .tryWriteBatch values =>
    let (count, ring) := ring.tryWriteBatch s triviallyCopyable values
    some (.tryWriteBatch count, ring)
  | .tryRead => do
    let (value, ring) ← ring.tryRead s
    some (.tryRead value, ring)
  | .tryReadInto output => do
    let (read, output, ring) ← ring.tryReadInto s output
    some (.tryReadInto read output, ring)
  | .tryReadBatch output => do
    let (count, output, ring) ← ring.tryReadBatch s triviallyCopyable output
    some (.tryReadBatch count output, ring)

/-- The purpose of the ring: a queue of at most `capacity` elements. A write takes what there is room
for, and a read gives what there is. -/
def boundedQueue (capacity : Nat) (queue : List T) : TypeRingCall T → TypeRingReturn T × List T
  | .tryWrite value =>
    if queue.length < capacity then (.tryWrite true, queue ++ [value]) else (.tryWrite false, queue)
  | .tryWriteBatch values =>
    let count := min values.length (capacity - queue.length)
    (.tryWriteBatch count, queue ++ values.take count)
  | .tryRead => (.tryRead queue.head?, queue.tail)
  | .tryReadInto output =>
    match queue with
    | [] => (.tryReadInto false output, [])
    | value :: queue => (.tryReadInto true value, queue)
  | .tryReadBatch output =>
    let count := min output.length queue.length
    (.tryReadBatch count (queue.take count ++ output.drop count), queue.drop count)

namespace Holds

variable (h : Holds k ring queue) (hw : k < w) (hs : k < s) (triviallyCopyable : Bool)

include h hw hs

/-- Where the producer sees no room, it has looked, and there is none. -/
theorem tryWrite (value : T) :
    (ring.tryWrite s value).1 = decide (queue.length < 2 ^ k) ∧
      Holds k (ring.tryWrite s value).2
        (if queue.length < 2 ^ k then queue ++ [value] else queue) := by
  have hwrite : ∀ {ring : TypeRingBuffer T w}, Holds k ring queue → ring.used s < 2 ^ k →
      Holds k (ring.publishTail (ring.slots.set
        (toSize s ring.producerLocal.position &&& ring.producerLocal.mask) (some value)) 1)
        (queue ++ [value]) := by
    intro ring h hroom
    have hstart : ring.tail.toNat % 2 ^ k < ring.slots.length := by
      rw [h.length]
      exact Nat.mod_lt _ (Nat.two_pow_pos k)
    have hroom' : ring.used s + [value].length ≤ 2 ^ k := hroom
    refine h.publishTail hw hs hroom' rfl ?_
    rw [h.producerMask, toSize_and_mask hs, h.producerPosition, map_cons, map_nil,
      ← Lib.overwrite_cons hstart (Nat.lt_of_le_of_lt (Nat.zero_le _) hstart), Lib.overwrite_nil]
  obtain ⟨stale, _, hle, hused⟩ := h.used_eq hw hs
  rw [TypeRingBuffer.tryWrite]
  split
  · next hfull =>
    -- The cursor of the consumer is loaded.
    have hfresh := h.refreshProducer
    have hnow := h.used_refreshProducer hw hs
    rw [hnow, hfresh.producerCapacity]
    rcases Nat.lt_or_ge queue.length (2 ^ k) with hlt | hge
    · rw [if_neg (Nat.not_le.mpr hlt), if_pos hlt]
      exact ⟨(decide_eq_true hlt).symm, hwrite hfresh (by rwa [hnow])⟩
    rw [if_pos hge, if_neg (Nat.not_lt.mpr hge)]
    exact ⟨(decide_eq_false (Nat.not_lt.mpr hge)).symm, hfresh⟩
  next hroom =>
  rw [h.producerCapacity] at hroom
  have hlt : queue.length < 2 ^ k := by omega
  rw [if_pos hlt]
  exact ⟨(decide_eq_true hlt).symm, hwrite h (Nat.not_le.mp hroom)⟩

/-- A batch for which the producer sees room, or after it has looked. -/
theorem writeBatch (hlt : ring.used s < 2 ^ k)
    (hroom : ring.used s = queue.length ∨ values.length ≤ 2 ^ k - ring.used s) :
    (ring.writeBatch s triviallyCopyable values).1 = min values.length (2 ^ k - queue.length) ∧
      Holds k (ring.writeBatch s triviallyCopyable values).2
        (queue ++ values.take (min values.length (2 ^ k - queue.length))) := by
  obtain ⟨stale, _, hle, hused⟩ := h.used_eq hw hs
  have hcount : min values.length (2 ^ k - ring.used s) = min values.length (2 ^ k - queue.length) := by
    omega
  rw [TypeRingBuffer.writeBatch, h.producerCapacity, h.producerMask, h.producerPosition,
    toSize_and_mask hs, hcount]
  generalize hn : min values.length (2 ^ k - queue.length) = n
  have hlen : (values.take n).length = n := by
    rw [length_take]
    omega
  have hfits : ring.used s + (values.take n).length ≤ 2 ^ k := by omega
  have hstart : ring.tail.toNat % 2 ^ k < ring.slots.length := by
    rw [h.length]
    exact Nat.mod_lt _ (Nat.two_pow_pos k)
  split
  · refine ⟨rfl, h.publishTail hw hs hfits hlen.symm ?_⟩
    have hshort : (values.take n).length ≤ ring.slots.length := by
      rw [h.length]
      omega
    have hcopy := copyIn_eq hstart hshort
    rwa [hlen, h.length] at hcopy
  refine ⟨rfl, h.publishTail hw hs hfits hlen.symm ?_⟩
  rw [constructEach_eq hs h.length (by omega), Nat.add_zero, Nat.mod_mod]

theorem tryWriteBatch (values : List T) :
    (ring.tryWriteBatch s triviallyCopyable values).1 = min values.length (2 ^ k - queue.length) ∧
      Holds k (ring.tryWriteBatch s triviallyCopyable values).2
        (queue ++ values.take (min values.length (2 ^ k - queue.length))) := by
  rw [TypeRingBuffer.tryWriteBatch]
  split
  · next hempty =>
    rw [List.isEmpty_iff.mp hempty, length_nil, Nat.zero_min, take_nil, append_nil]
    exact ⟨rfl, h⟩
  rw [h.producerCapacity]
  split
  · have hfresh := h.refreshProducer
    have hnow := h.used_refreshProducer hw hs
    dsimp only
    rw [hnow, hfresh.producerCapacity]
    split
    · next hfull =>
      rw [Nat.sub_eq_zero_of_le hfull, Nat.min_zero, take_zero, append_nil]
      exact ⟨rfl, hfresh⟩
    next hlt =>
    exact hfresh.writeBatch hw hs triviallyCopyable (by omega) (Or.inl hnow)
  next hroom =>
  exact h.writeBatch hw hs triviallyCopyable (by omega) (Or.inr (by omega))

omit triviallyCopyable

/-- The consumer is where it takes the producer to be if it takes nothing to be held. -/
theorem position_eq_iff :
    ring.consumerLocal.position = ring.consumerLocal.cachedPeer ↔ ring.available s = 0 := by
  obtain ⟨seen, hseen, hcached, heq⟩ := h.available_eq hw hs
  constructor
  · intro hpos
    rw [available, hpos, cursorDistance, BitVec.sub_self, toSize, BitVec.toNat_zero, Nat.zero_mod]
  intro hzero
  rw [h.consumerPosition, hcached, ← heq, hzero, BitVec.add_zero]

/-- The consumer sees something, if need be after it has looked, where something is held. -/
theorem look :
    let ring' := if ring.consumerLocal.position = ring.consumerLocal.cachedPeer
      then ring.refreshConsumer else ring
    Holds k ring' queue ∧
      (ring'.consumerLocal.position = ring'.consumerLocal.cachedPeer ↔ queue = []) := by
  intro ring'
  obtain ⟨seen, hseen, _, heq⟩ := h.available_eq hw hs
  have hempty := h.position_eq_iff hw hs
  by_cases hpos : ring.consumerLocal.position = ring.consumerLocal.cachedPeer
  · have hfresh := h.refreshConsumer
    have hnow := h.available_refreshConsumer hw hs
    have hring : ring' = ring.refreshConsumer := if_pos hpos
    rw [hring, hfresh.position_eq_iff hw hs, hnow]
    exact ⟨hfresh, length_eq_zero_iff⟩
  have hring : ring' = ring := if_neg hpos
  rw [hring]
  refine ⟨h, fun heq => absurd heq hpos, ?_⟩
  rintro rfl
  exact hempty.mpr (by rw [heq]; exact Nat.le_zero.mp hseen)

/-- The first element is moved out of its slot. -/
theorem readSlot (hqueue : queue = value :: rest)
    (hseen : ring.consumerLocal.position ≠ ring.consumerLocal.cachedPeer) :
    let index := toSize s ring.consumerLocal.position &&& ring.consumerLocal.mask
    ring.slots[index]?.join = some value ∧
      Holds k (ring.publishHead (ring.slots.set index none) 1) rest := by
  intro index
  subst hqueue
  have hpositive : 1 ≤ ring.available s := by
    rcases Nat.eq_zero_or_pos (ring.available s) with hzero | hpos
    · exact absurd ((h.position_eq_iff hw hs).mpr hzero) hseen
    exact hpos
  have hindex : index = ring.head.toNat % 2 ^ k := by
    show toSize s _ &&& _ = _
    rw [h.consumerMask, toSize_and_mask hs, h.consumerPosition]
  have hle := h.le
  rw [length_cons] at hle
  have hrest : rest.length < ring.slots.length := by
    rw [h.length]
    omega
  have hsto := h.stored
  rw [length_cons, Lib.window_succ h.start_lt hrest, map_cons] at hsto
  obtain ⟨hval, hsto⟩ := List.cons.inj hsto
  constructor
  · rw [hindex, getElem?_eq_getElem h.start_lt, hval]
    rfl
  refine h.publishHead hw hs hpositive (by rw [length_set, h.length]) ?_
  have hset := Lib.window_set (x := none) h.start_lt hrest
  rw [hsto, h.length] at hset
  rw [hindex]
  exact hset

theorem tryRead : ∃ ring', ring.tryRead s = some (queue.head?, ring') ∧ Holds k ring' queue.tail := by
  obtain ⟨hlooked, hempty⟩ := h.look hw hs
  rw [TypeRingBuffer.tryRead]
  generalize (if ring.consumerLocal.position = ring.consumerLocal.cachedPeer
    then ring.refreshConsumer else ring) = ring' at hlooked hempty ⊢
  rcases queue with _ | ⟨value, rest⟩
  · exact ⟨ring', if_pos (hempty.mpr rfl), hlooked⟩
  have hseen := mt hempty.mp nofun
  obtain ⟨hread, hrest⟩ := hlooked.readSlot hw hs rfl hseen
  refine ⟨_, ?_, hrest⟩
  rw [if_neg hseen]
  dsimp only
  rw [hread]
  rfl

theorem tryReadInto (output : T) : ∃ ring', ring.tryReadInto s output =
    some (queue.head?.isSome, queue.head?.getD output, ring') ∧ Holds k ring' queue.tail := by
  obtain ⟨hlooked, hempty⟩ := h.look hw hs
  rw [TypeRingBuffer.tryReadInto]
  generalize (if ring.consumerLocal.position = ring.consumerLocal.cachedPeer
    then ring.refreshConsumer else ring) = ring' at hlooked hempty ⊢
  rcases queue with _ | ⟨value, rest⟩
  · exact ⟨ring', if_pos (hempty.mpr rfl), hlooked⟩
  have hseen := mt hempty.mp nofun
  obtain ⟨hread, hrest⟩ := hlooked.readSlot hw hs rfl hseen
  refine ⟨_, ?_, hrest⟩
  rw [if_neg hseen]
  dsimp only
  rw [hread]
  rfl

theorem tryReadBatch (triviallyCopyable : Bool) (output : List T) :
    ∃ ring', ring.tryReadBatch s triviallyCopyable output =
      some (min output.length queue.length,
        queue.take (min output.length queue.length) ++ output.drop (min output.length queue.length),
        ring') ∧
      Holds k ring' (queue.drop (min output.length queue.length)) := by
  rw [TypeRingBuffer.tryReadBatch]
  split
  · next hoempty =>
    rw [List.isEmpty_iff.mp hoempty, length_nil, Nat.zero_min]
    exact ⟨ring, rfl, h⟩
  -- What the consumer sees is enough, or it is all that is held.
  have hlooked : ∃ ring', (if ring.available s < output.length then ring.refreshConsumer else ring) =
      ring' ∧ Holds k ring' queue ∧
      min output.length (ring'.available s) = min output.length queue.length := by
    obtain ⟨seen, hseen, _, heq⟩ := h.available_eq hw hs
    split
    · exact ⟨_, rfl, h.refreshConsumer, by rw [h.available_refreshConsumer hw hs]⟩
    exact ⟨_, rfl, h, by omega⟩
  obtain ⟨ring', hring, hlooked, hcount⟩ := hlooked
  dsimp only
  rw [hring, hcount]
  have hle : min output.length queue.length ≤ ring'.available s := by omega
  generalize hn : min output.length queue.length = n at hle ⊢
  have hqueue : n ≤ queue.length := by omega
  have hlen : (queue.take n).length = n := by
    rw [length_take]
    omega
  have hfits := hlooked.le
  split
  · next hzero =>
    rw [hzero]
    exact ⟨ring', rfl, hlooked⟩
  rw [hlooked.consumerMask, hlooked.consumerCapacity, hlooked.consumerPosition, toSize_and_mask hs]
  split
  · have hsto : Lib.window ring'.slots (ring'.head.toNat % 2 ^ k) n =
        (queue.take n).map some := by
      rw [← Lib.take_window hqueue, hlooked.stored, map_take]
    have hcopy := copyOut_eq hlooked.start_lt hsto
    rw [hlooked.length] at hcopy
    refine ⟨_, by rw [hcopy]; rfl, hlooked.publishHead hw hs hle hlooked.length ?_⟩
    have hrest := Lib.window_advance hlooked.start_lt (by rw [hlooked.length]; exact hfits) hqueue
    rw [hlooked.length, hlooked.stored, ← map_drop] at hrest
    exact hrest
  have hsto := hlooked.stored
  rw [← Nat.mod_mod, ← Nat.add_zero (ring'.head.toNat % 2 ^ k)] at hsto
  obtain ⟨slots, hmoved, hslots, hrest⟩ :=
    moveEach_eq hs hlooked.length hqueue hfits hsto
  rw [hmoved]
  rw [Nat.add_zero] at hrest
  exact ⟨_, rfl, hlooked.publishHead hw hs hle hslots hrest⟩

end Holds

theorem Holds.call (h : Holds k ring queue) (hw : k < w) (hs : k < s) (triviallyCopyable : Bool)
    (c : TypeRingCall T) : ∃ ring',
      ring.call s triviallyCopyable c = some ((boundedQueue (2 ^ k) queue c).1, ring') ∧
        Holds k ring' (boundedQueue (2 ^ k) queue c).2 := by
  cases c with
  | tryWrite value =>
    obtain ⟨hwritten, hholds⟩ := h.tryWrite hw hs value
    have hcall : ring.call s triviallyCopyable (.tryWrite value) =
        some (.tryWrite (ring.tryWrite s value).1, (ring.tryWrite s value).2) := rfl
    rw [hcall, hwritten, boundedQueue]
    rcases Nat.lt_or_ge queue.length (2 ^ k) with hlt | hge
    · rw [if_pos hlt] at hholds ⊢
      rw [decide_eq_true hlt]
      exact ⟨_, rfl, hholds⟩
    rw [if_neg (Nat.not_lt.mpr hge)] at hholds ⊢
    rw [decide_eq_false (Nat.not_lt.mpr hge)]
    exact ⟨_, rfl, hholds⟩
  | tryWriteBatch values =>
    obtain ⟨hcount, hholds⟩ := h.tryWriteBatch hw hs triviallyCopyable values
    have hcall : ring.call s triviallyCopyable (.tryWriteBatch values) =
        some (.tryWriteBatch (ring.tryWriteBatch s triviallyCopyable values).1,
          (ring.tryWriteBatch s triviallyCopyable values).2) := rfl
    exact ⟨_, by rw [hcall, hcount, boundedQueue], hholds⟩
  | tryRead =>
    obtain ⟨ring', hread, hholds⟩ := h.tryRead hw hs
    exact ⟨ring', by rw [TypeRingBuffer.call, hread]; rfl, hholds⟩
  | tryReadInto output =>
    obtain ⟨ring', hread, hholds⟩ := h.tryReadInto hw hs output
    refine ⟨ring', by rw [TypeRingBuffer.call, hread]; rcases queue <;> rfl, ?_⟩
    rcases queue <;> exact hholds
  | tryReadBatch output =>
  obtain ⟨ring', hread, hholds⟩ := h.tryReadBatch hw hs triviallyCopyable output
  exact ⟨ring', by rw [TypeRingBuffer.call, hread]; rfl, hholds⟩

/-! ## Runs -/

/-- What a call has put into the ring. -/
def accepted : TypeRingCall T → TypeRingReturn T → List T
  | .tryWrite value, .tryWrite true => [value]
  | .tryWriteBatch values, .tryWriteBatch count => values.take count
  | _, _ => []

/-- What a call has got from the ring. -/
def obtained : TypeRingReturn T → List T
  | .tryRead value => value.toList
  | .tryReadInto true output => [output]
  | .tryReadBatch count output => output.take count
  | _ => []

/-- A bounded queue loses nothing and invents nothing. -/
theorem boundedQueue_conserves (capacity : Nat) (queue : List T) (c : TypeRingCall T) :
    queue ++ accepted c (boundedQueue capacity queue c).1 =
      obtained (boundedQueue capacity queue c).1 ++ (boundedQueue capacity queue c).2 := by
  cases c with
  | tryWrite value =>
    rw [boundedQueue]
    split
    · rfl
    exact append_nil queue
  | tryWriteBatch values => rfl
  | tryRead | tryReadInto =>
    rcases queue with _ | ⟨value, queue⟩
    · rfl
    exact append_nil _
  | tryReadBatch output =>
  show queue ++ [] = (queue.take _ ++ output.drop _).take _ ++ queue.drop _
  rw [append_nil, take_append_of_le_length (by rw [length_take]; omega),
    take_take, Nat.min_self, take_append_drop]

/-- The calls of both sides, in the order in which they come. The returns are given with the calls. -/
def TypeRingBuffer.run (s : Nat) (triviallyCopyable : Bool) (ring : TypeRingBuffer T w) :
    List (TypeRingCall T) → Option (List (TypeRingCall T × TypeRingReturn T) × TypeRingBuffer T w)
  | [] => some ([], ring)
  | c :: calls => do
    let (r, ring) ← ring.call s triviallyCopyable c
    let (history, ring) ← ring.run s triviallyCopyable calls
    some ((c, r) :: history, ring)

theorem Holds.run (h : Holds k ring queue) (hw : k < w) (hs : k < s) (triviallyCopyable : Bool)
    (calls : List (TypeRingCall T)) : ∃ history ring' held,
      ring.run s triviallyCopyable calls = some (history, ring') ∧ Holds k ring' held ∧
        queue ++ history.flatMap (fun (c, r) => accepted c r) =
          history.flatMap (fun (_, r) => obtained r) ++ held := by
  induction calls generalizing ring queue with
  | nil => exact ⟨[], ring, queue, rfl, h, append_nil queue⟩
  | cons c calls ih =>
  obtain ⟨ring₁, hcall, hholds⟩ := h.call hw hs triviallyCopyable c
  obtain ⟨history, ring', held, hrun, hheld, hconserved⟩ := ih hholds
  refine ⟨(c, (boundedQueue (2 ^ k) queue c).1) :: history, ring', held, ?_, hheld, ?_⟩
  · rw [TypeRingBuffer.run, hcall, Option.bind_eq_bind, Option.bind_some]
    dsimp only
    rw [hrun]
    rfl
  rw [flatMap_cons, flatMap_cons, ← append_assoc,
    boundedQueue_conserves (2 ^ k) queue c, append_assoc, hconserved, append_assoc]

/-- For every capacity `2 ^ k` of at most half of what the cursor can count, and every order of the
calls: what has been written has been read, in order and once, or is held; no more is held than the
capacity; and the next call does what it does on a queue of what is held. -/
theorem typeRing_bounded_fifo (hw : k < w) (hs : k < s) (triviallyCopyable : Bool)
    (calls : List (TypeRingCall T)) : ∃ history ring' held,
      (initializeLocalStorage (2 ^ k) : TypeRingBuffer T w).run s triviallyCopyable calls =
        some (history, ring') ∧
      history.flatMap (fun (c, r) => accepted c r) =
        history.flatMap (fun (_, r) => obtained r) ++ held ∧
      held.length ≤ 2 ^ k ∧
      ∀ c, ∃ ring'', ring'.call s triviallyCopyable c =
        some ((boundedQueue (2 ^ k) held c).1, ring'') := by
  obtain ⟨history, ring', held, hrun, hheld, hconserved⟩ :=
    (Holds.initial (T := T) (w := w) (k := k)).run hw hs triviallyCopyable calls
  refine ⟨history, ring', held, hrun, hconserved, hheld.le, fun c => ?_⟩
  obtain ⟨ring'', hcall, _⟩ := hheld.call hw hs triviallyCopyable c
  exact ⟨ring'', hcall⟩

/-- A cursor of eight digits and the greatest capacity that it allows, over a batch that goes in
and comes out in two steps. -/
theorem typeRing_bounded_fifo_eight : ∃ history ring' held,
    (initializeLocalStorage 128 : TypeRingBuffer Nat 8).run 64 true
        [.tryWriteBatch [4, 5, 6], .tryRead, .tryReadBatch [0, 0, 0]] = some (history, ring') ∧
      history.flatMap (fun (c, r) => accepted c r) =
        history.flatMap (fun (_, r) => obtained r) ++ held ∧
      held.length ≤ 128 := by
  obtain ⟨history, ring', held, hrun, hconserved, hle, _⟩ :=
    typeRing_bounded_fifo (T := Nat) (w := 8) (s := 64) (k := 7) (by decide) (by decide) true
      [.tryWriteBatch [4, 5, 6], .tryRead, .tryReadBatch [0, 0, 0]]
  exact ⟨history, ring', held, hrun, hconserved, hle⟩

end Galay.Utils
