import Galay.Http2.Hpack.Table

/-!
# The ring of the dynamic table

`HpackDynamicTable.entries` lists the live entries, index `0` first. The well-formedness
`HpackDynamicTable.WF` of the ring is kept by every operation; `evict` drops the last entry
(`WF.entries_evict`), `overwrite` adds an entry in front (`WF.entries_overwrite`), and `grow`
reverses the entries and adds the new one at the back (`WF.entries_grow`).
-/

namespace Galay.Http2

open List

namespace HpackStaticTable

theorem get_of_mem_nameToIndices (h : i ∈ nameToIndices name) :
    0 < i ∧ i ≤ size ∧ get i = some (kStaticTableEntries.getD (i - 1) .empty) ∧
      (kStaticTableEntries.getD (i - 1) .empty).name = name := by
  simp only [nameToIndices, mem_map, mem_filter, mem_range, decide_eq_true_eq] at h
  obtain ⟨j, ⟨hj, hname⟩, rfl⟩ := h
  refine ⟨Nat.succ_pos j, hj, ?_, hname⟩
  rw [get, if_neg (by omega), Nat.add_sub_cancel, getElem?_eq_getElem hj]
  simp [getD_eq_getElem?_getD, getElem?_eq_getElem hj]

/-- A positive answer is the index of an entry of that name, and of that value unless the
answer says otherwise. -/
theorem find_spec (h : find name value = (i, nameOnly)) (hi : 0 < i) :
    i ≤ size ∧ ∃ e, get i = some e ∧ e.name = name ∧ (nameOnly = false → e.value = value) := by
  unfold find at h
  simp only at h
  split at h
  · cases h
    exact absurd hi (Nat.lt_irrefl 0)
  next first tail hindices =>
    split at h
    next index hfind =>
      cases h
      obtain ⟨-, hle, hget, hname⟩ := get_of_mem_nameToIndices (mem_of_find?_eq_some hfind)
      exact ⟨hle, _, hget, hname, fun _ => by simpa using find?_some hfind⟩
    · cases h
      obtain ⟨-, hle, hget, hname⟩ :=
        get_of_mem_nameToIndices (hindices ▸ mem_cons_self : i ∈ nameToIndices name)
      exact ⟨hle, _, hget, hname, fun hf => by cases hf⟩

end HpackStaticTable

namespace HpackDynamicTable

variable {t : HpackDynamicTable}

/-- The live entries, index `0` first. -/
def entries (t : HpackDynamicTable) : List Http2HeaderField :=
  (List.range t.count).map fun i => t.slot (t.position i)

/-- The ring has room for its entries, `head` is one of its slots, and `currentSize` is the
total size of the entries. -/
structure WF (t : HpackDynamicTable) : Prop where
  count_le : t.count ≤ t.ring.length
  head_lt : 0 < t.ring.length → t.head < t.ring.length
  size_eq : t.currentSize = (t.entries.map Http2HeaderField.size).sum

@[simp] theorem length_entries : t.entries.length = t.count := by simp [entries]

theorem getElem?_entries (h : i < t.count) : t.entries[i]? = some (t.slot (t.position i)) := by
  simp [entries, h]

theorem get_eq (t : HpackDynamicTable) (i : Nat) : t.get i = t.entries[i]? := by
  unfold get
  split
  · next h => rw [getElem?_eq_none (by simpa using h)]
  next h => rw [getElem?_entries (by omega)]

section

variable (hhead : t.head < t.ring.length)

include hhead

theorem position_of_lt (hi : i < t.ring.length) :
    t.position i = if i < t.head then t.head - 1 - i else t.head + t.ring.length - 1 - i := by
  unfold position
  split
  · next h =>
    have : t.head + t.ring.length - 1 - i = (t.head - 1 - i) + t.ring.length := by omega
    rw [this, Nat.add_mod_right, Nat.mod_eq_of_lt (by omega)]
  exact Nat.mod_eq_of_lt (by omega)

theorem position_inj (hi : i < t.ring.length)
    (hj : j < t.ring.length) (h : t.position i = t.position j) : i = j := by
  rw [position_of_lt hhead hi, position_of_lt hhead hj] at h
  split at h <;> split at h <;> omega

/-- Going one entry further is going one slot down, with the wrap of the source. -/
theorem position_succ (hi : i + 1 < t.ring.length) :
    t.position (i + 1) = if t.position i = 0 then t.ring.length - 1 else t.position i - 1 := by
  rw [position_of_lt hhead hi, position_of_lt hhead (by omega)]
  split <;> split <;> split <;> omega

end

theorem slot_set (ring : List Http2HeaderField) (pos pos' : Nat) (field : Http2HeaderField) :
    (ring.set pos field).getD pos' .empty =
      if pos = pos' ∧ pos' < ring.length then field else ring.getD pos' .empty := by
  simp only [getD_eq_getElem?_getD, getElem?_set]
  by_cases h : pos = pos'
  · subst h
    by_cases hl : pos < ring.length
    · simp [hl]
    simp [hl]
  simp [h]

namespace WF

theorem cap_pos (H : t.WF) (h : 0 < t.count) : 0 < t.ring.length :=
  Nat.lt_of_lt_of_le h H.count_le

theorem entries_nil (h : t.count = 0) : t.entries = [] := by simp [entries, h]

/-! ## Construction and clearing -/

theorem init (maxSize : Nat) : WF { maxSize := maxSize } :=
  ⟨Nat.le_refl _, fun h => absurd h (by simp), by simp [entries]⟩

theorem clear (t : HpackDynamicTable) : t.clear.WF :=
  ⟨Nat.le_refl _, fun h => absurd h (by simp [HpackDynamicTable.clear]),
    by simp [entries, HpackDynamicTable.clear]⟩

theorem withMaxSize (H : t.WF) (n : Nat) : WF { t with maxSize := n } :=
  { H with }

/-! ## Eviction -/

theorem oldest_eq (H : t.WF) (h : 0 < t.count) :
    (t.head + t.ring.length - t.count) % t.ring.length = t.position (t.count - 1) := by
  have := H.head_lt (H.cap_pos h)
  have := H.count_le
  unfold position
  congr 1
  omega

theorem entries_evict (H : t.WF) : t.evict.entries = t.entries.dropLast := by
  by_cases h : t.count = 0
  · simp [evict, h, entries]
  have hcap := H.cap_pos (by omega)
  have hhead := H.head_lt hcap
  have hle := H.count_le
  have hlen : t.evict.entries.length = t.entries.dropLast.length := by simp [evict, h]
  refine ext_getElem? fun i => ?_
  by_cases hi : i < t.count - 1
  · have hpos : ¬ (t.position (t.count - 1) = t.position i) := fun heq => by
      have := position_inj hhead (by omega) (by omega) heq
      omega
    rw [getElem?_entries (by simpa [evict, h] using hi), getElem?_dropLast,
      length_entries, if_pos hi, getElem?_entries (by omega)]
    have hp : t.evict.position i = t.position i := by simp [evict, h, position]
    simp only [hp, slot]
    rw [evict, if_neg h, H.oldest_eq (by omega)]
    simp only
    rw [slot_set, if_neg (by simp [hpos])]
  rw [getElem?_eq_none (by simp [evict, h]; omega), getElem?_eq_none (by simp; omega)]

theorem evict (H : t.WF) : t.evict.WF := by
  by_cases h : t.count = 0
  · simpa [HpackDynamicTable.evict, h] using H
  have hcap := H.cap_pos (by omega)
  have hle := H.count_le
  refine ⟨?_, ?_, ?_⟩
  · simp only [HpackDynamicTable.evict, if_neg h, length_set]
    omega
  · intro _
    simpa only [HpackDynamicTable.evict, if_neg h, length_set] using H.head_lt hcap
  have hlast : t.entries = t.entries.dropLast ++ [t.slot (t.position (t.count - 1))] := by
    have hne : t.entries ≠ [] := by
      intro hnil
      have := congrArg List.length hnil
      simp at this; omega
    conv_lhs => rw [← dropLast_append_getLast hne]
    congr 2
    rw [getLast_eq_getElem, ← Option.some_inj, ← getElem?_eq_getElem]
    simp only [length_entries]
    exact getElem?_entries (by omega)
  rw [H.entries_evict]
  simp only [HpackDynamicTable.evict, if_neg h, H.oldest_eq (Nat.pos_of_ne_zero h)]
  rw [H.size_eq]
  conv_lhs => rw [hlast]
  simp

theorem evictWhile (H : t.WF) (reserve rounds : Nat) : (t.evictWhile reserve rounds).WF := by
  induction rounds generalizing t with
  | zero => exact H
  | succ rounds ih =>
  simp only [HpackDynamicTable.evictWhile]
  split
  · exact ih H.evict
  exact H

end WF

@[simp] theorem evict_maxSize : t.evict.maxSize = t.maxSize := by
  unfold evict; split <;> rfl

@[simp] theorem evict_count : t.evict.count = t.count - 1 := by
  unfold evict; split <;> simp_all

@[simp] theorem evict_length : t.evict.ring.length = t.ring.length := by
  unfold evict; split <;> simp

@[simp] theorem evictWhile_maxSize (reserve rounds : Nat) :
    (t.evictWhile reserve rounds).maxSize = t.maxSize := by
  induction rounds generalizing t with
  | zero => rfl
  | succ rounds ih =>
  simp only [evictWhile]
  split
  · rw [ih, evict_maxSize]
  rfl

@[simp] theorem setMaxSize_maxSize (n : Nat) : (t.setMaxSize n).maxSize = n := by
  simp [setMaxSize]

/-- The loop stops because its condition fails, not because its rounds are used up. -/
theorem WF.evictWhile_done (H : t.WF) (hr : reserve ≤ t.maxSize) (hn : t.count ≤ rounds) :
    (t.evictWhile reserve rounds).currentSize + reserve ≤ t.maxSize := by
  induction rounds generalizing t with
  | zero =>
    have h0 : t.currentSize = 0 := by rw [H.size_eq, WF.entries_nil (by omega)]; rfl
    simpa [HpackDynamicTable.evictWhile, h0] using hr
  | succ rounds ih =>
  simp only [HpackDynamicTable.evictWhile]
  split
  · have := ih H.evict (by simpa using hr) (by simp; omega)
    simpa using this
  omega

/-! ## Eviction as an iterate -/

theorem evict_withMaxSize (n : Nat) :
    ({ t with maxSize := n } : HpackDynamicTable).evict = { t.evict with maxSize := n } := by
  unfold evict
  split <;> rfl

theorem iterate_evict_withMaxSize (n k : Nat) :
    evict^[k] ({ t with maxSize := n } : HpackDynamicTable) =
      { evict^[k] t with maxSize := n } := by
  induction k generalizing t with
  | zero => rfl
  | succ k ih => rw [Function.iterate_succ_apply, evict_withMaxSize, ih, Function.iterate_succ_apply]

theorem iterate_evict_count (k : Nat) : (evict^[k] t).count = t.count - k := by
  induction k generalizing t with
  | zero => rfl
  | succ k ih => rw [Function.iterate_succ_apply, ih, evict_count]; omega

theorem evictWhile_eq_iterate (reserve rounds : Nat) (hr : rounds ≤ t.count) :
    ∃ k ≤ t.count, t.evictWhile reserve rounds = evict^[k] t := by
  induction rounds generalizing t with
  | zero => exact ⟨0, Nat.zero_le _, rfl⟩
  | succ rounds ih =>
  simp only [evictWhile]
  split
  · obtain ⟨k, hk, heq⟩ := ih (t := t.evict) (by simp; omega)
    rw [evict_count] at hk
    exact ⟨k + 1, by omega, by rw [heq, Function.iterate_succ_apply]⟩
  exact ⟨0, Nat.zero_le _, rfl⟩

theorem setMaxSize_eq_iterate (t : HpackDynamicTable) (n : Nat) :
    ∃ k ≤ t.count, t.setMaxSize n = { evict^[k] t with maxSize := n } := by
  obtain ⟨k, hk, heq⟩ :=
    evictWhile_eq_iterate (t := { t with maxSize := n }) 0 t.count (Nat.le_refl _)
  exact ⟨k, hk, by rw [setMaxSize, heq, iterate_evict_withMaxSize]⟩

/-! ## Insertion -/

theorem WF.entries_overwrite (H : t.WF) (hroom : t.count < t.ring.length)
    (field : Http2HeaderField) : (t.overwrite field).entries = field :: t.entries := by
  have hhead := H.head_lt (by omega)
  have hlen : (t.overwrite field).ring.length = t.ring.length := by simp [overwrite]
  have hnext : (t.overwrite field).head = if t.head + 1 = t.ring.length then 0 else t.head + 1 := by
    simp only [overwrite]
    split
    · next h => rw [h, Nat.mod_self]
    exact Nat.mod_eq_of_lt (by omega)
  have hhead' : (t.overwrite field).head < (t.overwrite field).ring.length := by
    rw [hnext, hlen]; split <;> omega
  -- the new entry is in the old `head`, an older entry keeps its slot
  have hzero : (t.overwrite field).position 0 = t.head := by
    rw [position_of_lt hhead' (by omega), hnext, hlen]
    by_cases hwrap : t.head + 1 = t.ring.length
    · simp only [if_pos hwrap]; split <;> omega
    simp only [if_neg hwrap]; split <;> omega
  have hsucc : ∀ i < t.count, (t.overwrite field).position (i + 1) = t.position i := by
    intro i hi
    rw [position_of_lt hhead' (by omega), position_of_lt hhead (by omega), hnext, hlen]
    split <;> split <;> (try split) <;> omega
  refine ext_getElem? fun i => ?_
  cases i with
  | zero =>
    rw [getElem?_entries (by simp [overwrite]), hzero]
    simp only [slot, overwrite, slot_set, getElem?_cons_zero]
    rw [if_pos ⟨trivial, by omega⟩]
  | succ i =>
  rw [getElem?_cons_succ]
  by_cases hi : i < t.count
  · rw [getElem?_entries (by simp [overwrite]; omega), hsucc i hi, getElem?_entries hi]
    have hne : t.head ≠ t.position i := by
      rw [position_of_lt hhead (by omega)]
      split <;> omega
    simp only [slot, overwrite, slot_set]
    rw [if_neg (by simp [hne])]
  rw [getElem?_eq_none (by simp [overwrite]; omega), getElem?_eq_none (by simp; omega)]

theorem WF.overwrite (H : t.WF) (hroom : t.count < t.ring.length) (field : Http2HeaderField) :
    (t.overwrite field).WF := by
  refine ⟨by simp [HpackDynamicTable.overwrite]; omega, fun _ => ?_, ?_⟩
  · simp only [HpackDynamicTable.overwrite, length_set]
    exact Nat.mod_lt _ (by omega)
  rw [H.entries_overwrite hroom]
  simp only [HpackDynamicTable.overwrite, H.size_eq, map_cons, sum_cons]
  omega

theorem length_grow (t : HpackDynamicTable) (field : Http2HeaderField) :
    (t.grow field).ring.length = if t.count = 0 then 8 else t.count * 2 := by
  simp only [grow, cons_append, length_cons, length_append, length_map,
    length_range, length_replicate]
  split <;> omega

/-- The move to the larger ring reverses the entries: `get 0` is the oldest one afterwards. -/
theorem entries_grow (t : HpackDynamicTable) (field : Http2HeaderField) :
    (t.grow field).entries = t.entries.reverse ++ [field] := by
  have hlen := length_grow t field
  have hcount : (t.grow field).count = t.count + 1 := rfl
  have hcap : t.count + 1 ≤ (t.grow field).ring.length := by rw [hlen]; split <;> omega
  have hhead : (t.grow field).head =
      if t.count + 1 = (t.grow field).ring.length then 0 else t.count + 1 := by
    have : (t.grow field).head = (t.count + 1) % (t.grow field).ring.length := by rw [hlen]; rfl
    rw [this]
    split
    · next h => rw [← h, Nat.mod_self]
    exact Nat.mod_eq_of_lt (by omega)
  have hhead' : (t.grow field).head < (t.grow field).ring.length := by rw [hhead]; split <;> omega
  have hpos : ∀ i ≤ t.count, (t.grow field).position i = t.count - i := by
    intro i hi
    rw [position_of_lt hhead' (by omega), hhead]
    by_cases hwrap : t.count + 1 = (t.grow field).ring.length
    · simp only [if_pos hwrap]; split <;> omega
    simp only [if_neg hwrap]; split <;> omega
  have hring : (t.grow field).ring = (field :: t.entries) ++
      List.replicate ((if t.count = 0 then 8 else t.count * 2) - 1 - t.count) .empty := rfl
  refine ext_getElem? fun i => ?_
  by_cases hi : i ≤ t.count
  · rw [getElem?_entries (by omega), hpos i hi, slot, hring, getD_eq_getElem?_getD,
      getElem?_append_left (by simp only [length_cons, length_entries]; omega)]
    by_cases hlt : i < t.count
    · obtain ⟨k, hk⟩ : ∃ k, t.count - i = k + 1 := ⟨t.count - i - 1, by omega⟩
      rw [hk, getElem?_cons_succ, getElem?_append_left (by simpa using hlt),
        getElem?_reverse (by simpa using hlt), length_entries,
        show t.count - 1 - i = k by omega, getElem?_entries (by omega)]
      rfl
    have : i = t.count := by omega
    subst this
    rw [Nat.sub_self, getElem?_append_right (by simp)]
    simp
  rw [getElem?_eq_none (by simp [hcount]; omega), getElem?_eq_none (by simp; omega)]

theorem WF.grow (H : t.WF) (field : Http2HeaderField) : (t.grow field).WF := by
  have hlen := length_grow t field
  refine ⟨?_, fun hpos => ?_, ?_⟩
  · rw [hlen]
    simp only [HpackDynamicTable.grow]
    split <;> omega
  · rw [hlen]
    exact Nat.mod_lt _ (by split <;> omega)
  rw [entries_grow]
  simp only [HpackDynamicTable.grow, H.size_eq, map_append, map_reverse,
    sum_append, sum_reverse, map_cons, map_nil, sum_cons, sum_nil]
  omega

theorem WF.add (H : t.WF) (field : Http2HeaderField) : (t.add field).WF := by
  unfold HpackDynamicTable.add
  split
  · exact WF.clear t
  have H' := H.evictWhile field.size t.count
  simp only
  split
  · next h => exact H'.overwrite h field
  exact H'.grow field

theorem WF.setMaxSize (H : t.WF) (n : Nat) : (t.setMaxSize n).WF :=
  (H.withMaxSize n).evictWhile 0 t.count

theorem WF.add_le (H : t.WF) (field : Http2HeaderField) :
    (t.add field).currentSize ≤ t.maxSize := by
  unfold HpackDynamicTable.add
  split
  · exact Nat.zero_le _
  next h =>
  have hdone := H.evictWhile_done (Nat.le_of_not_lt h) (Nat.le_refl _)
  simp only
  split
  · exact hdone
  exact hdone

theorem WF.setMaxSize_le (H : t.WF) (n : Nat) : (t.setMaxSize n).currentSize ≤ n :=
  (H.withMaxSize n).evictWhile_done (Nat.zero_le _) (Nat.le_refl _)

theorem WF.count_mul_le (H : t.WF) : t.count * 32 ≤ t.currentSize := by
  rw [H.size_eq, ← length_entries]
  induction t.entries with
  | nil => exact Nat.zero_le _
  | cons field fields ih =>
  have : 32 ≤ field.size := Nat.le_add_left _ _
  simp only [length_cons, map_cons, sum_cons]
  omega

@[simp] theorem add_maxSize (field : Http2HeaderField) : (t.add field).maxSize = t.maxSize := by
  unfold add
  split
  · rfl
  simp only
  split
  · exact evictWhile_maxSize ..
  exact evictWhile_maxSize ..

/-! ## Lookup -/

theorem WF.findLoop_spec (H : t.WF) (hsum : i + remaining = t.count)
    (hpos : 0 < remaining → pos = t.position i)
    (hname : 0 < nameMatch → ∃ e, t.get (nameMatch - 1) = some e ∧ e.name = name)
    (h : t.findLoop name value remaining i pos nameMatch = some (k, nameOnly)) :
    ∃ e, t.get k = some e ∧ e.name = name ∧ (nameOnly = false → e.value = value) := by
  induction remaining generalizing i pos nameMatch with
  | zero =>
    simp only [findLoop] at h
    split at h
    · next hm =>
      cases h
      obtain ⟨e, he, hn⟩ := hname hm
      exact ⟨e, he, hn, fun hf => by cases hf⟩
    cases h
  | succ remaining ih =>
  have hcap := H.count_le
  have hhead := H.head_lt (by omega)
  have hget : t.get i = some (t.slot pos) := by
    rw [hpos (by omega), get_eq, getElem?_entries (by omega)]
  have hnext : 0 < remaining →
      (if pos = 0 then t.ring.length - 1 else pos - 1) = t.position (i + 1) := by
    intro hr
    rw [hpos (by omega), position_succ hhead (by omega)]
  simp only [findLoop] at h
  split at h
  · next hn =>
    split at h
    · next hv =>
      cases h
      exact ⟨_, hget, hn, fun _ => hv⟩
    refine ih (by omega) hnext (fun hm => ?_) h
    split at hm
    · exact ⟨_, by simp [*], hn⟩
    next hz => simpa [hz] using hname (Nat.pos_of_ne_zero hz)
  exact ih (by omega) hnext hname h

/-- A lookup answers with an entry of that name, and of that value unless it says otherwise. -/
theorem WF.find_spec (H : t.WF) (h : t.find name value = some (k, nameOnly)) :
    ∃ e, t.get k = some e ∧ e.name = name ∧ (nameOnly = false → e.value = value) := by
  unfold find at h
  split at h
  · cases h
  exact H.findLoop_spec (by omega) (fun _ => rfl) (fun hm => absurd hm (by simp)) h

end HpackDynamicTable

end Galay.Http2
