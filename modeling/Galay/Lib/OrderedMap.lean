import Mathlib.Order.Lattice
import Mathlib.Data.List.Nodup
import Mathlib.Data.List.TakeWhile

/-!
# Ordered maps

Maps as lists of entries with rising keys, and the entries next to a key.
-/

namespace Galay.Lib

open List

universe u v

structure OrderedMap (κ : Type u) (ν : Type v) [LinearOrder κ] where
  entries : List (κ × ν)
  sorted : entries.Pairwise fun entry other => entry.1 < other.1

namespace OrderedMap

variable {κ : Type u} {ν : Type v} [LinearOrder κ] {m m' : OrderedMap κ ν} {k : κ}
  {entry other : κ × ν}

def empty : OrderedMap κ ν := ⟨[], .nil⟩

def insertEntry (k : κ) (v : ν) : List (κ × ν) → List (κ × ν)
  | [] => [(k, v)]
  | entry :: entries =>
    if k < entry.1 then (k, v) :: entry :: entries
    else if k = entry.1 then (k, v) :: entries
    else entry :: insertEntry k v entries

variable {entries : List (κ × ν)}

theorem mem_insertEntry (hsorted : entries.Pairwise fun entry other => entry.1 < other.1) :
    entry ∈ insertEntry k v entries ↔ entry = (k, v) ∨ entry ∈ entries ∧ entry.1 ≠ k := by
  induction entries with
  | nil => simp [insertEntry]
  | cons first entries ih =>
  obtain ⟨hfirst, hsorted⟩ := List.pairwise_cons.1 hsorted
  unfold insertEntry
  split
  · next hlt =>
    have hne : ∀ e ∈ first :: entries, e.1 ≠ k := by
      intro e hmem
      rcases List.mem_cons.1 hmem with rfl | hmem
      · exact ne_of_gt hlt
      exact ne_of_gt (lt_trans hlt (hfirst e hmem))
    rw [mem_cons]
    constructor
    · rintro (heq | hmem)
      · exact .inl heq
      exact .inr ⟨hmem, hne entry hmem⟩
    rintro (heq | ⟨hmem, -⟩)
    · exact .inl heq
    exact .inr hmem
  split
  · next heq =>
    have hne : ∀ e ∈ entries, e.1 ≠ k := by
      intro e hmem
      rw [heq]
      exact ne_of_gt (hfirst e hmem)
    rw [mem_cons, mem_cons]
    constructor
    · rintro (heq | hmem)
      · exact .inl heq
      exact .inr ⟨.inr hmem, hne entry hmem⟩
    rintro (heq | ⟨rfl | hmem, hkey⟩)
    · exact .inl heq
    · exact absurd heq.symm hkey
    exact .inr hmem
  next hne =>
  rw [mem_cons, mem_cons, ih hsorted]
  constructor
  · rintro (rfl | heq | ⟨hmem, hkey⟩)
    · exact .inr ⟨.inl rfl, fun h => hne h.symm⟩
    · exact .inl heq
    exact .inr ⟨.inr hmem, hkey⟩
  rintro (heq | ⟨rfl | hmem, hkey⟩)
  · exact .inr (.inl heq)
  · exact .inl rfl
  exact .inr (.inr ⟨hmem, hkey⟩)

theorem sorted_insertEntry (hsorted : entries.Pairwise fun entry other => entry.1 < other.1) :
    (insertEntry k v entries).Pairwise fun entry other => entry.1 < other.1 := by
  induction entries with
  | nil => exact pairwise_singleton _ _
  | cons first entries ih =>
  have hwhole := hsorted
  obtain ⟨hfirst, hsorted⟩ := List.pairwise_cons.1 hsorted
  unfold insertEntry
  split
  · next hlt =>
    refine List.pairwise_cons.2 ⟨fun e hmem => ?_, hwhole⟩
    rcases List.mem_cons.1 hmem with rfl | hmem
    · exact hlt
    exact lt_trans hlt (hfirst e hmem)
  next hnlt =>
  split
  · next heq =>
    refine List.pairwise_cons.2 ⟨fun e hmem => ?_, hsorted⟩
    simp only
    rw [heq]
    exact hfirst e hmem
  next hne =>
  refine List.pairwise_cons.2 ⟨fun e hmem => ?_, ih hsorted⟩
  rcases (mem_insertEntry hsorted).1 hmem with rfl | ⟨hmem, -⟩
  · exact lt_of_le_of_ne (not_lt.1 hnlt) (Ne.symm hne)
  exact hfirst e hmem

variable (m)

def insert (k : κ) (v : ν) : OrderedMap κ ν :=
  ⟨insertEntry k v m.entries, sorted_insertEntry m.sorted⟩

def erase (k : κ) : OrderedMap κ ν :=
  ⟨m.entries.filter fun entry => entry.1 ≠ k, m.sorted.filter _⟩

def find? (m : OrderedMap κ ν) (k : κ) : Option ν :=
  (m.entries.find? fun entry => entry.1 = k).map (·.2)

/-- The last entry up to a key. -/
def floor (k : κ) : Option (κ × ν) :=
  (m.entries.filter fun entry => entry.1 ≤ k).getLast?

/-- The entries from a key on. -/
def lowerBound (k : κ) : List (κ × ν) :=
  m.entries.dropWhile fun entry => entry.1 < k

variable {m}

@[simp]
theorem mem_insert :
    entry ∈ (m.insert k v).entries ↔ entry = (k, v) ∨ entry ∈ m.entries ∧ entry.1 ≠ k :=
  mem_insertEntry m.sorted

@[simp]
theorem mem_erase : entry ∈ (m.erase k).entries ↔ entry ∈ m.entries ∧ entry.1 ≠ k := by
  simp [erase]

theorem mem_foldl_insert (keys : List κ) :
    entry ∈ (keys.foldl (fun m k => m.insert k v) m).entries ↔
      entry.1 ∈ keys ∧ entry.2 = v ∨ entry ∈ m.entries ∧ entry.1 ∉ keys := by
  induction keys generalizing m with
  | nil => simp
  | cons k keys ih =>
  rw [foldl_cons, ih, mem_insert, mem_cons]
  constructor
  · rintro (⟨hkey, hval⟩ | ⟨rfl | ⟨hmem, hne⟩, hkeys⟩)
    · exact .inl ⟨.inr hkey, hval⟩
    · exact .inl ⟨.inl rfl, rfl⟩
    exact .inr ⟨hmem, fun h => h.elim hne hkeys⟩
  rintro (⟨hkey, hval⟩ | ⟨hmem, hkeys⟩)
  · by_cases hlater : entry.1 ∈ keys
    · exact .inl ⟨hlater, hval⟩
    exact .inr ⟨.inl (Prod.ext (hkey.resolve_right hlater) hval), hlater⟩
  exact .inr ⟨.inr ⟨hmem, fun h => hkeys (.inl h)⟩, fun h => hkeys (.inr h)⟩

theorem mem_foldl_erase (keys : List κ) :
    entry ∈ (keys.foldl erase m).entries ↔ entry ∈ m.entries ∧ entry.1 ∉ keys := by
  induction keys generalizing m with
  | nil => simp
  | cons k keys ih =>
  rw [foldl_cons, ih, mem_erase, mem_cons, not_or]
  exact and_assoc

theorem eq_of_key_eq (hmem : entry ∈ m.entries) (hmem' : other ∈ m.entries)
    (hkey : entry.1 = other.1) : entry = other := by
  have hnodup : (m.entries.map Prod.fst).Nodup := by
    rw [List.Nodup, pairwise_map]
    exact m.sorted.imp ne_of_lt
  exact inj_on_of_nodup_map hnodup hmem hmem' hkey

/-! ## The entry before a key -/

theorem floor_eq_some_iff :
    m.floor k = some entry ↔
      entry ∈ m.entries ∧ entry.1 ≤ k ∧
        ∀ other ∈ m.entries, other.1 ≤ k → other.1 ≤ entry.1 := by
  have hmem (e : κ × ν) : e ∈ m.entries.filter (fun entry => entry.1 ≤ k) ↔
      e ∈ m.entries ∧ e.1 ≤ k := by
    simp
  constructor
  · intro hfloor
    obtain ⟨before, heq⟩ := List.getLast?_eq_some_iff.1 hfloor
    have hsorted := m.sorted.filter (fun entry => decide (entry.1 ≤ k))
    rw [heq] at hsorted
    obtain ⟨hentry, hle⟩ := (hmem entry).1 (by rw [heq]; simp)
    refine ⟨hentry, hle, fun other hother hle => ?_⟩
    have hother := (hmem other).2 ⟨hother, hle⟩
    rw [heq] at hother
    rcases List.mem_append.1 hother with hother | hother
    · exact le_of_lt ((List.pairwise_append.1 hsorted).2.2 other hother entry (by simp))
    exact le_of_eq (congrArg Prod.fst (List.mem_singleton.1 hother))
  rintro ⟨hentry, hle, hgreatest⟩
  cases hlast : (m.entries.filter fun entry => entry.1 ≤ k).getLast? with
  | none =>
    have hfiltered := (hmem entry).2 ⟨hentry, hle⟩
    rw [List.getLast?_eq_none_iff.1 hlast] at hfiltered
    exact absurd hfiltered not_mem_nil
  | some last =>
  obtain ⟨before, heq⟩ := List.getLast?_eq_some_iff.1 hlast
  have hsorted := m.sorted.filter (fun entry => decide (entry.1 ≤ k))
  rw [heq] at hsorted
  obtain ⟨hmemLast, hleLast⟩ := (hmem last).1 (by rw [heq]; simp)
  have hfiltered := (hmem entry).2 ⟨hentry, hle⟩
  rw [heq] at hfiltered
  rw [floor, hlast]
  rcases List.mem_append.1 hfiltered with hbefore | hentry
  · have hlt := (List.pairwise_append.1 hsorted).2.2 entry hbefore last (by simp)
    exact absurd (hgreatest last hmemLast hleLast) (not_le_of_gt hlt)
  rw [List.mem_singleton.1 hentry]

/-- The entry before a key depends only on the entries before it. -/
theorem floor_congr
    (h : ∀ entry : κ × ν, entry.1 ≤ k → (entry ∈ m.entries ↔ entry ∈ m'.entries)) :
    m.floor k = m'.floor k := by
  refine Option.ext fun entry => ?_
  rw [floor_eq_some_iff, floor_eq_some_iff]
  constructor
  · rintro ⟨hmem, hle, hgreatest⟩
    exact ⟨(h entry hle).1 hmem, hle, fun other hother hle =>
      hgreatest other ((h other hle).2 hother) hle⟩
  rintro ⟨hmem, hle, hgreatest⟩
  exact ⟨(h entry hle).2 hmem, hle, fun other hother hle =>
    hgreatest other ((h other hle).1 hother) hle⟩

/-- The entry before a key stays, when it is still there and nothing was added. -/
theorem floor_of_subset (hmem : ∀ entry, m.floor k = some entry → entry ∈ m'.entries)
    (hsub : ∀ e ∈ m'.entries, e ∈ m.entries) : m'.floor k = m.floor k := by
  cases hfloor : m.floor k with
  | some entry =>
    obtain ⟨-, hle, hgreatest⟩ := floor_eq_some_iff.1 hfloor
    exact floor_eq_some_iff.2 ⟨hmem entry hfloor, hle, fun e he => hgreatest e (hsub e he)⟩
  | none =>
  rw [floor, getLast?_eq_none_iff, filter_eq_nil_iff] at hfloor ⊢
  exact fun e he => hfloor e (hsub e he)

/-! ## The entry after a key -/

theorem le_of_mem_dropWhile (hsorted : entries.Pairwise fun entry other => entry.1 < other.1)
    (hmem : entry ∈ entries.dropWhile fun entry => entry.1 < k) : k ≤ entry.1 := by
  induction entries with
  | nil => exact absurd hmem not_mem_nil
  | cons first entries ih =>
  obtain ⟨hfirst, hsorted⟩ := List.pairwise_cons.1 hsorted
  rw [dropWhile_cons] at hmem
  split at hmem
  · exact ih hsorted hmem
  next hnlt =>
  have hle : k ≤ first.1 := not_lt.1 (of_decide_eq_false (Bool.eq_false_iff.2 hnlt))
  rcases List.mem_cons.1 hmem with rfl | hmem
  · exact hle
  exact le_trans hle (le_of_lt (hfirst entry hmem))

variable (m)

theorem lowerBound_spec (k : κ) :
    ∃ before, m.entries = before ++ m.lowerBound k ∧ (∀ entry ∈ before, entry.1 < k) ∧
      ∀ entry ∈ m.lowerBound k, k ≤ entry.1 := by
  refine ⟨m.entries.takeWhile fun entry => entry.1 < k,
    (takeWhile_append_dropWhile).symm, fun entry hmem => ?_, fun entry hmem => ?_⟩
  · have hlt := mem_takeWhile_imp hmem
    exact of_decide_eq_true hlt
  exact le_of_mem_dropWhile m.sorted hmem

/-- The first entry from a key on, or the first of all where there is none. -/
def successor (k : κ) : Option (κ × ν) :=
  (m.lowerBound k).head?.or m.entries.head?

theorem head_le (hsorted : entries.Pairwise fun a b => a.1 < b.1)
    (hhead : entries.head? = some entry) : entry ∈ entries ∧ ∀ e ∈ entries, entry.1 ≤ e.1 := by
  cases entries with
  | nil => nomatch hhead
  | cons first entries =>
  obtain rfl : first = entry := Option.some.inj hhead
  refine ⟨mem_cons_self, fun e hmem => ?_⟩
  rcases List.mem_cons.1 hmem with rfl | hmem
  · exact le_refl _
  exact le_of_lt ((List.pairwise_cons.1 hsorted).1 e hmem)

/-- An entry is the next one from a key on, or the first of all when none is. -/
def IsSuccessor (k : κ) (entry : κ × ν) : Prop :=
  entry ∈ m.entries ∧
    (k ≤ entry.1 ∧ (∀ e ∈ m.entries, k ≤ e.1 → entry.1 ≤ e.1) ∨
      (∀ e ∈ m.entries, e.1 < k) ∧ ∀ e ∈ m.entries, entry.1 ≤ e.1)

variable {m}

theorem IsSuccessor.unique (h : m.IsSuccessor k entry) (h' : m.IsSuccessor k other) :
    entry = other := by
  obtain ⟨hmem, h⟩ := h
  obtain ⟨hmem', h'⟩ := h'
  refine eq_of_key_eq hmem hmem' ?_
  rcases h with ⟨hle, hleast⟩ | ⟨hnone, hleast⟩
  · rcases h' with ⟨hle', hleast'⟩ | ⟨hnone', -⟩
    · exact le_antisymm (hleast other hmem' hle') (hleast' entry hmem hle)
    exact absurd hle (not_le_of_gt (hnone' entry hmem))
  rcases h' with ⟨hle', -⟩ | ⟨-, hleast'⟩
  · exact absurd hle' (not_le_of_gt (hnone other hmem'))
  exact le_antisymm (hleast other hmem') (hleast' entry hmem)

theorem isSuccessor_of_successor (h : m.successor k = some entry) : m.IsSuccessor k entry := by
  obtain ⟨before, heq, hbefore, hafter⟩ := m.lowerBound_spec k
  unfold successor at h
  cases hhead : (m.lowerBound k).head? with
  | some first =>
    rw [hhead] at h
    obtain rfl : first = entry := Option.some.inj h
    have hsorted := m.sorted
    rw [heq] at hsorted
    obtain ⟨hmem, hleast⟩ := head_le (List.pairwise_append.1 hsorted).2.1 hhead
    refine ⟨by rw [heq]; exact mem_append_right _ hmem, .inl ⟨hafter _ hmem, ?_⟩⟩
    intro e he hle
    rw [heq] at he
    rcases List.mem_append.1 he with he | he
    · exact absurd hle (not_le_of_gt (hbefore e he))
    exact hleast e he
  | none =>
  rw [hhead] at h
  rw [List.head?_eq_none_iff.1 hhead, append_nil] at heq
  obtain ⟨hmem, hleast⟩ := head_le m.sorted h
  exact ⟨hmem, .inr ⟨by rw [heq]; exact hbefore, hleast⟩⟩

theorem successor_eq_some_iff : m.successor k = some entry ↔ m.IsSuccessor k entry := by
  refine ⟨isSuccessor_of_successor, fun h => ?_⟩
  cases hsuccessor : m.successor k with
  | some other => rw [h.unique (isSuccessor_of_successor hsuccessor)]
  | none =>
  unfold successor at hsuccessor
  have hempty := List.head?_eq_none_iff.1 (Option.or_eq_none_iff.1 hsuccessor).2
  have hmem := h.1
  rw [hempty] at hmem
  exact absurd hmem not_mem_nil

/-- The entry after a key stays, when it is still there and nothing was added. -/
theorem successor_of_subset (h : m.successor k = some entry) (hmem : entry ∈ m'.entries)
    (hsub : ∀ e ∈ m'.entries, e ∈ m.entries) : m'.successor k = some entry := by
  rw [successor_eq_some_iff] at h ⊢
  obtain ⟨-, h⟩ := h
  refine ⟨hmem, ?_⟩
  rcases h with ⟨hle, hleast⟩ | ⟨hnone, hleast⟩
  · exact .inl ⟨hle, fun e he => hleast e (hsub e he)⟩
  exact .inr ⟨fun e he => hnone e (hsub e he), fun e he => hleast e (hsub e he)⟩

end OrderedMap

end Galay.Lib
