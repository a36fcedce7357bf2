import Galay.Lib.Bytes

/-!
# Scatter lists (`galay-http/common/iovec_utils.h`)

An array of `iovec` is the list of the byte strings it points to.
-/

namespace Galay

open List

abbrev IoVecs := List Bytes

namespace IoVecWindow

def firstNonEmpty (source : IoVecs) : Option Bytes :=
  source.find? fun segment => 0 < segment.length

theorem firstNonEmpty_isPrefix {segment : Bytes}
    (h : firstNonEmpty source = some segment) : ∃ rest, source.flatten = segment ++ rest := by
  induction source with
  | nil => cases h
  | cons head source ih =>
  rw [firstNonEmpty, find?_cons] at h
  split at h
  · cases h
    exact ⟨source.flatten, rfl⟩
  next hempty =>
  have hnil : head = [] := by simpa using hempty
  obtain ⟨rest, hrest⟩ := ih h
  exact ⟨rest, by rw [flatten_cons, hnil, nil_append, hrest]⟩

theorem firstNonEmpty_of_ne_nil (h : source.flatten ≠ []) :
    ∃ segment, firstNonEmpty source = some segment := by
  rw [← Option.isSome_iff_exists, firstNonEmpty, find?_isSome]
  simpa [length_pos_iff] using h

end IoVecWindow

namespace IoVecBytes

def sum (source : IoVecs) : Nat := (source.map List.length).sum

/-- The bytes copied to the destination; their number is what the source returns. -/
def copyPrefix : (source : IoVecs) → (requested : Nat) → Bytes
  | [], _ => []
  | segment :: source, requested =>
    if requested = 0 then []
    else if segment.length = 0 then copyPrefix source requested
    else segment.take requested ++ copyPrefix source (requested - segment.length)

theorem sum_eq (source : IoVecs) : sum source = source.flatten.length := by
  rw [sum, length_flatten]

theorem copyPrefix_eq (source : IoVecs) (requested : Nat) :
    copyPrefix source requested = source.flatten.take requested := by
  induction source generalizing requested with
  | nil => simp [copyPrefix]
  | cons segment source ih =>
  unfold copyPrefix
  split
  · next hzero => simp [hzero]
  split
  · next hempty =>
    rw [ih, flatten_cons, List.length_eq_zero_iff.1 hempty, nil_append]
  rw [ih, flatten_cons, take_append]

end IoVecBytes

end Galay

namespace Galay.Kernel

open List

/-! ## The cursor

What is still to be written, as a window of an array of slices with a counter of its bytes. Calls
move the start of the window, and compact the array when it has become empty. -/

structure IoVecCursor where
  iovecs : IoVecs := []
  index : Nat := 0
  remainingBytes : Nat := 0

namespace IoVecCursor

variable (cursor : IoVecCursor)

def count : Nat :=
  if cursor.index ≥ cursor.iovecs.length then 0 else cursor.iovecs.length - cursor.index

def empty : Bool := cursor.count == 0

def clear (_ : IoVecCursor) : IoVecCursor := {}

/-- What is kept is written over what has been read. -/
def normalize : IoVecCursor :=
  let (kept, remainingBytes) := cursor.iovecs.foldl (fun (kept, remainingBytes) seg =>
    if seg.length = 0 then (kept, remainingBytes)
    else (kept ++ [seg], remainingBytes + seg.length)) ([], 0)
  { iovecs := kept, index := 0, remainingBytes }

def append (seg : Bytes) : IoVecCursor :=
  if seg.length = 0 then cursor
  else
    let cursor := if cursor.index ≥ cursor.iovecs.length then
      { cursor with iovecs := [], index := 0 } else cursor
    { cursor with
      iovecs := cursor.iovecs ++ [seg], remainingBytes := cursor.remainingBytes + seg.length }

def reset (iovecs : IoVecs) : IoVecCursor :=
  { cursor with iovecs }.normalize

/-- The overload for the first elements of an array. -/
def resetArray (_ : IoVecCursor) (iovecs : IoVecs) (count : Nat) : IoVecCursor :=
  (iovecs.take (min count iovecs.length)).foldl append {}

/-- The loop of `advance`: the slices and the index as it leaves them, and the bytes left over. -/
def advanceLoop (iovecs : IoVecs) (index remaining : Nat) : IoVecs × Nat × Nat :=
  if h : 0 < remaining ∧ index < iovecs.length then
    let seg := iovecs[index]
    if remaining < seg.length then (iovecs.set index (seg.drop remaining), index, 0)
    else advanceLoop (iovecs.set index []) (index + 1) (remaining - seg.length)
  else (iovecs, index, remaining)
termination_by iovecs.length - index
decreasing_by
  rw [length_set]
  omega

def skipLeadingEmpty (iovecs : IoVecs) (index : Nat) : Nat :=
  if h : index < iovecs.length then
    if iovecs[index].length = 0 then skipLeadingEmpty iovecs (index + 1) else index
  else index

def advance (bytes : Nat) : IoVecCursor × Nat :=
  if bytes = 0 ∨ cursor.empty then (cursor, 0)
  else
    let toAdvance := min bytes cursor.remainingBytes
    let (iovecs, index, remaining) := advanceLoop cursor.iovecs cursor.index toAdvance
    let advanced := toAdvance - remaining
    let remainingBytes := cursor.remainingBytes - advanced
    let index := skipLeadingEmpty iovecs index
    if index ≥ iovecs.length then ({ iovecs := [], index := 0, remainingBytes }, advanced)
    else ({ iovecs, index, remainingBytes }, advanced)

/-- The slices that are given to `writev`. -/
def window : IoVecs := cursor.iovecs.drop cursor.index

/-- Writes that take some bytes of the window each: what they have sent, and the cursor then. -/
def writeLoop (cursor : IoVecCursor) : (written : List Nat) → Bytes × IoVecCursor
  | [] => ([], cursor)
  | bytes :: written =>
    let (sent, final) := (cursor.advance bytes).1.writeLoop written
    (IoVecBytes.copyPrefix cursor.window bytes ++ sent, final)

/-- A call that may change a cursor. -/
inductive Call
  | append (seg : Bytes)
  | advance (bytes : Nat)
  | reset (iovecs : IoVecs)
  | resetArray (iovecs : IoVecs) (count : Nat)
  | clear

def step : Call → IoVecCursor
  | .append seg => cursor.append seg
  | .advance bytes => (cursor.advance bytes).1
  | .reset iovecs => cursor.reset iovecs
  | .resetArray iovecs count => cursor.resetArray iovecs count
  | .clear => cursor.clear

variable {cursor}

/-- What is pending after a call, as a byte string. -/
def pending (bytes : Bytes) : Call → Bytes
  | .append seg => bytes ++ seg
  | .advance n => bytes.drop n
  | .reset iovecs => iovecs.flatten
  | .resetArray iovecs count => (iovecs.take count).flatten
  | .clear => []

/-- The bytes of the window, and their number in the counter. -/
structure Shows (cursor : IoVecCursor) (bytes : Bytes) : Prop where
  counted : cursor.remainingBytes = bytes.length
  shown : cursor.window.flatten = bytes

theorem normalize_shows (cursor : IoVecCursor) :
    cursor.normalize.Shows cursor.iovecs.flatten := by
  have hloop (kept iovecs : IoVecs) (remainingBytes : Nat)
      (hcount : remainingBytes = kept.flatten.length) :
      let r := iovecs.foldl (fun (kept, remainingBytes) seg =>
        if seg.length = 0 then (kept, remainingBytes)
        else (kept ++ [seg], remainingBytes + seg.length)) (kept, remainingBytes)
      r.2 = r.1.flatten.length ∧ r.1.flatten = kept.flatten ++ iovecs.flatten := by
    induction iovecs generalizing kept remainingBytes with
    | nil => exact ⟨hcount, (append_nil _).symm⟩
    | cons seg iovecs ih =>
    simp only [foldl_cons]
    split
    · rename_i hempty
      rw [flatten_cons, length_eq_zero_iff.1 hempty, nil_append]
      exact ih kept remainingBytes hcount
    have hstep := ih (kept ++ [seg]) (remainingBytes + seg.length)
      (by rw [flatten_append, flatten_singleton, length_append, hcount])
    rwa [flatten_append, flatten_singleton, append_assoc] at hstep
  obtain ⟨hcount, hflatten⟩ := hloop [] cursor.iovecs 0 rfl
  exact ⟨hcount.trans (congrArg List.length hflatten), hflatten⟩

section Shows

variable {cursor : IoVecCursor} {bytes : Bytes}

theorem Shows.append (h : cursor.Shows bytes) (seg : Bytes) :
    (cursor.append seg).Shows (bytes ++ seg) := by
  obtain ⟨hcount, hwindow⟩ := h
  rw [window] at hwindow
  rw [IoVecCursor.append]
  split
  · rename_i hempty
    rw [length_eq_zero_iff.1 hempty, append_nil]
    exact ⟨hcount, hwindow⟩
  refine ⟨?_, ?_⟩
  · rw [length_append, ← hcount]
    split <;> rfl
  rw [window]
  split
  · rename_i hend
    rw [drop_eq_nil_of_le hend, flatten_nil] at hwindow
    rw [← hwindow, nil_append]
    exact append_nil seg
  rename_i hmore
  simp only
  rw [drop_append_of_le_length (by omega), flatten_append, hwindow, flatten_singleton]

theorem Shows.appendAll (h : cursor.Shows bytes) (iovecs : IoVecs) :
    (iovecs.foldl IoVecCursor.append cursor).Shows (bytes ++ iovecs.flatten) := by
  induction iovecs generalizing cursor bytes with
  | nil => rwa [flatten_nil, append_nil]
  | cons seg iovecs ih =>
  rw [foldl_cons, flatten_cons, ← append_assoc]
  exact ih (h.append seg)

theorem advanceLoop_spec {iovecs : IoVecs} {index remaining : Nat}
    (h : remaining ≤ (iovecs.drop index).flatten.length) :
    (advanceLoop iovecs index remaining).2.2 = 0 ∧
      ((advanceLoop iovecs index remaining).1.drop
        (advanceLoop iovecs index remaining).2.1).flatten =
          (iovecs.drop index).flatten.drop remaining := by
  fun_induction advanceLoop iovecs index remaining with
  | case1 iovecs index remaining hmore seg hinside =>
    refine ⟨rfl, ?_⟩
    rw [drop_eq_getElem_cons (by rw [length_set]; exact hmore.2), getElem_set_self,
      drop_set_of_lt (Nat.lt_succ_self _), drop_eq_getElem_cons hmore.2, flatten_cons, flatten_cons,
      drop_append_of_le_length (Nat.le_of_lt hinside)]
  | case2 iovecs index remaining hmore seg hpast ih =>
    have hseg : (iovecs.drop index).flatten = seg ++ (iovecs.drop (index + 1)).flatten := by
      rw [drop_eq_getElem_cons hmore.2, flatten_cons]
    rw [hseg, length_append] at h
    rw [drop_set_of_lt (Nat.lt_succ_self _)] at ih
    obtain ⟨hzero, hrest⟩ := ih (Nat.sub_le_iff_le_add'.2 h)
    have hgone : seg.drop remaining = [] := drop_eq_nil_of_le (Nat.le_of_not_lt hpast)
    rw [hseg, drop_append, hgone, nil_append]
    exact ⟨hzero, hrest⟩
  | case3 iovecs index remaining hdone =>
  have hzero : remaining = 0 := by
    by_cases hend : index < iovecs.length
    · omega
    rw [drop_eq_nil_of_le (by omega)] at h
    exact Nat.le_zero.1 h
  exact ⟨hzero, by rw [hzero, drop_zero]⟩

theorem skipLeadingEmpty_spec (iovecs : IoVecs) (index : Nat) :
    (iovecs.drop (skipLeadingEmpty iovecs index)).flatten = (iovecs.drop index).flatten := by
  fun_induction skipLeadingEmpty iovecs index with
  | case1 index hmore hempty ih =>
    rw [ih, drop_eq_getElem_cons hmore, flatten_cons, length_eq_zero_iff.1 hempty, nil_append]
  | case2 => rfl
  | case3 => rfl

section

variable (h : cursor.Shows bytes)

include h

theorem Shows.advance (n : Nat) :
    (cursor.advance n).1.Shows (bytes.drop n) ∧ (cursor.advance n).2 = min n bytes.length := by
  obtain ⟨hcount, hwindow⟩ := h
  rw [IoVecCursor.advance]
  split
  · rename_i hnothing
    rcases hnothing with rfl | hempty
    · rw [drop_zero, Nat.zero_min]
      exact ⟨⟨hcount, hwindow⟩, rfl⟩
    rw [empty, count, beq_iff_eq] at hempty
    have hend : cursor.iovecs.length ≤ cursor.index := by
      split at hempty <;> omega
    have hnil := hwindow
    rw [window, drop_eq_nil_of_le hend, flatten_nil] at hnil
    subst hnil
    rw [drop_nil, length_nil, Nat.min_zero]
    exact ⟨⟨hcount, hwindow⟩, rfl⟩
  have hdrop : bytes.drop (min n bytes.length) = bytes.drop n := by
    rcases Nat.le_total n bytes.length with hle | hle
    · rw [Nat.min_eq_left hle]
    rw [Nat.min_eq_right hle, drop_length, drop_eq_nil_of_le hle]
  have hfits : min n cursor.remainingBytes ≤ (cursor.iovecs.drop cursor.index).flatten.length := by
    rw [window] at hwindow
    rw [hwindow, hcount]
    exact Nat.min_le_right _ _
  obtain ⟨hzero, hrest⟩ := advanceLoop_spec hfits
  rcases advanceLoop cursor.iovecs cursor.index (min n cursor.remainingBytes) with
    ⟨iovecs, index, remaining⟩
  simp only at hzero hrest ⊢
  rw [window] at hwindow
  rw [hwindow, hcount, hdrop, ← skipLeadingEmpty_spec] at hrest
  rw [hzero, Nat.sub_zero, hcount]
  have hleft : bytes.length - min n bytes.length = (bytes.drop n).length := by
    rw [length_drop]
    omega
  split
  · rename_i hend
    rw [drop_eq_nil_of_le hend] at hrest
    exact ⟨⟨hleft, hrest⟩, rfl⟩
  exact ⟨⟨hleft, hrest⟩, rfl⟩

theorem Shows.step (call : Call) :
    (cursor.step call).Shows (pending bytes call) := by
  cases call with
  | append seg => exact h.append seg
  | advance n => exact (h.advance n).1
  | reset iovecs => exact normalize_shows _
  | resetArray iovecs count =>
    have hbounded : iovecs.take (min count iovecs.length) = iovecs.take count :=
      (take_eq_take_min ..).symm
    have hnew : Shows {} [] := ⟨rfl, rfl⟩
    rw [pending, IoVecCursor.step, resetArray, hbounded]
    exact hnew.appendAll _
  | clear => exact ⟨rfl, rfl⟩

theorem Shows.run (calls : List Call) :
    (calls.foldl IoVecCursor.step cursor).Shows (calls.foldl pending bytes) := by
  induction calls generalizing cursor bytes with
  | nil => exact h
  | cons call calls ih => exact ih (h.step call)

/-- Every byte is sent once and in order, and the rest is still pending. -/
theorem Shows.writeLoop (written : List Nat) :
    (cursor.writeLoop written).1 ++ (cursor.writeLoop written).2.window.flatten = bytes := by
  induction written generalizing cursor bytes with
  | nil => exact h.shown
  | cons n written ih =>
  rw [IoVecCursor.writeLoop, append_assoc, ih (h.advance n).1, IoVecBytes.copyPrefix_eq, h.shown,
    take_append_drop]

end

end Shows

/-- After any calls the counter is the length of the slices that are left, `advance` takes exactly
the first bytes away, and writes of any lengths send what is pending once and in order. -/
theorem bookkeeping (calls : List Call) (n : Nat) (written : List Nat) :
    let cursor := calls.foldl step {}
    let bytes := calls.foldl pending []
    cursor.remainingBytes = IoVecBytes.sum cursor.window ∧ cursor.window.flatten = bytes ∧
    (cursor.advance n).2 = min n cursor.remainingBytes ∧
    (cursor.advance n).1.window.flatten = bytes.drop n ∧
    (cursor.writeLoop written).1 ++ (cursor.writeLoop written).2.window.flatten = bytes := by
  have h : (calls.foldl step {}).Shows (calls.foldl pending []) := Shows.run ⟨rfl, rfl⟩ calls
  obtain ⟨hshows, hadvanced⟩ := h.advance n
  refine ⟨?_, h.shown, ?_, hshows.shown, h.writeLoop written⟩
  · rw [IoVecBytes.sum_eq, h.shown, h.counted]
  · rw [hadvanced, h.counted]

end IoVecCursor

end Galay.Kernel
