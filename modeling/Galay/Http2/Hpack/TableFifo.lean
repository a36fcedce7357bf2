import Mathlib.Data.List.Induction
import Galay.Http2.Hpack.TableLemmas
import Galay.Lib.BoundedFifo

/-!
# The dynamic table as a bounded queue

The table refines a bounded queue of its entries, as long as its ring does not grow: a ring that
grows turns the order of its entries round (`entries_grow`).
-/

namespace Galay.Http2

open List
open Galay.Lib

/-- The queue that the table stands for. -/
structure HeaderFifo where
  entries : List Http2HeaderField
  maxSize : Nat

namespace HeaderFifo

variable (fifo : HeaderFifo)

def add (field : Http2HeaderField) : HeaderFifo :=
  { fifo with entries := BoundedFifo.push Http2HeaderField.size fifo.maxSize fifo.entries field }

def setMaxSize (maxSize : Nat) : HeaderFifo :=
  ⟨BoundedFifo.keep Http2HeaderField.size maxSize fifo.entries, maxSize⟩

def clear : HeaderFifo := { fifo with entries := [] }

/-- The first entry of this name and value, or else the first of this name. -/
def find (name value : Bytes) : Option (Nat × Bool) :=
  ((fifo.entries.findIdx? fun entry => entry.name = name ∧ entry.value = value).map (·, false)).or
    ((fifo.entries.findIdx? fun entry => entry.name = name).map (·, true))

end HeaderFifo

/-- The calls of a table. -/
inductive TableCall
  | add (field : Http2HeaderField)
  | setMaxSize (maxSize : Nat)
  | clear

namespace HpackDynamicTable

def call (t : HpackDynamicTable) : TableCall → HpackDynamicTable
  | .add field => t.add field
  | .setMaxSize maxSize => t.setMaxSize maxSize
  | .clear => t.clear

def run (t : HpackDynamicTable) (calls : List TableCall) : HpackDynamicTable := calls.foldl call t

end HpackDynamicTable

def HeaderFifo.call (fifo : HeaderFifo) : TableCall → HeaderFifo
  | .add field => fifo.add field
  | .setMaxSize maxSize => fifo.setMaxSize maxSize
  | .clear => fifo.clear

def HeaderFifo.run (fifo : HeaderFifo) (calls : List TableCall) : HeaderFifo :=
  calls.foldl HeaderFifo.call fifo

/-- The table is the queue to whoever uses it, and its evictions come to an end. -/
structure HpackDynamicTable.Refines (t : HpackDynamicTable) (fifo : HeaderFifo) : Prop where
  size_eq : t.currentSize = (fifo.entries.map Http2HeaderField.size).sum
  size_le : t.currentSize ≤ t.maxSize
  get_eq (i : Nat) : t.get i = fifo.entries[i]?
  find_eq (name value : Bytes) : t.find name value = fifo.find name value
  evicts {reserve : Nat} : reserve ≤ t.maxSize →
    ∃ rounds ≤ t.count, (HpackDynamicTable.evict^[rounds] t).currentSize + reserve ≤ t.maxSize

/-- A call that makes no ring of entries grow, unless they read the same backwards. -/
def KeepsOrder (t : HpackDynamicTable) (fifo : HeaderFifo) : TableCall → Prop
  | .add field =>
    (fifo.add field).entries.length = t.ring.length + 1 →
      (fifo.add field).entries.reverse = (fifo.add field).entries
  | .setMaxSize _ | .clear => True

namespace HpackDynamicTable

variable {t : HpackDynamicTable}

/-! ## Lookup -/

theorem map_succ (found : Option Nat) (i : Nat) (nameOnly : Bool) :
    (found.map (· + 1)).map (fun j => (i + j, nameOnly)) =
      found.map fun j => (i + 1 + j, nameOnly) := by
  cases found with
  | none => rfl
  | some j =>
  rw [Option.map_some, Option.map_some, Option.map_some, Nat.add_assoc, Nat.add_comm j 1]

theorem WF.findLoop_eq (H : t.WF)
    (hsum : i + remaining = t.count) (hpos : 0 < remaining → pos = t.position i) :
    t.findLoop name value remaining i pos nameMatch =
      (((t.entries.drop i).findIdx? fun entry => entry.name = name ∧ entry.value = value).map
        fun j => (i + j, false)).or (if nameMatch > 0 then some (nameMatch - 1, true)
        else ((t.entries.drop i).findIdx? fun entry => entry.name = name).map
          fun j => (i + j, true)) := by
  induction remaining generalizing i pos nameMatch with
  | zero =>
    rw [drop_of_length_le (by rw [length_entries]; omega), findLoop]
    rfl
  | succ remaining ih =>
  have hcap := H.count_le
  have hhead := H.head_lt (by omega)
  have hi : i < t.entries.length := by rw [length_entries]; omega
  have hentry : t.entries[i] = t.slot pos := by
    rw [← Option.some_inj, ← getElem?_eq_getElem, getElem?_entries (by omega),
      hpos remaining.succ_pos]
  have hnext : 0 < remaining →
      (if pos = 0 then t.ring.length - 1 else pos - 1) = t.position (i + 1) := by
    intro hr
    rw [hpos remaining.succ_pos, position_succ hhead (by omega)]
  rw [drop_eq_getElem_cons hi, hentry, findIdx?_cons, findIdx?_cons, findLoop]
  by_cases hname : (t.slot pos).name = name
  · by_cases hval : (t.slot pos).value = value
    · simp only [hname, hval, and_self, decide_true, if_true, Option.map_some, Option.some_or,
        Nat.add_zero]
    simp only [hname, hval, and_false, decide_false, decide_true, if_true, Bool.false_eq_true,
      if_false, map_succ, Option.map_some, Nat.add_zero]
    rw [ih (by omega) hnext]
    congr 1
    by_cases hmatch : nameMatch = 0
    · simp only [hmatch, if_true, Nat.succ_pos, if_true, Nat.add_sub_cancel, gt_iff_lt,
        Nat.lt_irrefl, if_false]
    simp only [hmatch, if_false]
    rw [if_pos (Nat.pos_of_ne_zero hmatch), if_pos (Nat.pos_of_ne_zero hmatch)]
  simp only [hname, false_and, decide_false, if_false, Bool.false_eq_true, map_succ]
  exact ih (by omega) hnext

theorem WF.find_eq (H : t.WF) (name value : Bytes) :
    t.find name value = HeaderFifo.find ⟨t.entries, t.maxSize⟩ name value := by
  rw [find, HeaderFifo.find]
  split
  · rename_i hcount
    rw [WF.entries_nil hcount]
    rfl
  rw [H.findLoop_eq (Nat.zero_add _) fun _ => rfl, drop_zero, if_neg (Nat.lt_irrefl 0)]
  simp only [Nat.zero_add]

/-! ## Eviction -/

theorem WF.total_eq (H : t.WF) : BoundedFifo.total Http2HeaderField.size t.entries = t.currentSize :=
  H.size_eq.symm

theorem WF.entries_evictWhile (H : t.WF) (hreserve : reserve ≤ t.maxSize)
    (hrounds : t.count ≤ rounds) : (t.evictWhile reserve rounds).entries =
      BoundedFifo.keep Http2HeaderField.size (t.maxSize - reserve) t.entries := by
  induction rounds generalizing t with
  | zero =>
    rw [WF.entries_nil (Nat.le_zero.1 hrounds), BoundedFifo.keep_of_le (Nat.zero_le _)]
    exact WF.entries_nil (Nat.le_zero.1 hrounds)
  | succ rounds ih =>
  rw [HpackDynamicTable.evictWhile]
  split
  · rename_i hlarge
    have hcount : t.evict.count ≤ rounds := by
      rw [evict_count]
      omega
    have hfull : ¬ BoundedFifo.total Http2HeaderField.size t.entries ≤ t.maxSize - reserve := by
      rw [H.total_eq]
      omega
    rw [ih H.evict (by rw [evict_maxSize]; exact hreserve) hcount, evict_maxSize, H.entries_evict,
      ← BoundedFifo.keep_of_lt hfull]
  rename_i hroom
  rw [BoundedFifo.keep_of_le (by rw [H.total_eq]; omega)]

theorem WF.evicts (H : t.WF) (hreserve : reserve ≤ t.maxSize) : ∃ rounds ≤ t.count,
      (HpackDynamicTable.evict^[rounds] t).currentSize + reserve ≤ t.maxSize := by
  obtain ⟨rounds, hrounds, heq⟩ := evictWhile_eq_iterate reserve t.count le_rfl
  exact ⟨rounds, hrounds, heq ▸ H.evictWhile_done hreserve le_rfl⟩

theorem evictWhile_length (reserve rounds : Nat) :
    (t.evictWhile reserve rounds).ring.length = t.ring.length := by
  induction rounds generalizing t with
  | zero => rfl
  | succ rounds ih =>
  rw [evictWhile]
  split
  · rw [ih, evict_length]
  rfl

/-! ## Calls -/

/-- What holds of a table after any calls. -/
structure Sound (t : HpackDynamicTable) : Prop where
  wf : t.WF
  size_le : t.currentSize ≤ t.maxSize

theorem Sound.call (H : t.Sound) (c : TableCall) : (t.call c).Sound := by
  cases c with
  | add field =>
    refine ⟨H.wf.add field, ?_⟩
    rw [HpackDynamicTable.call, add_maxSize]
    exact H.wf.add_le field
  | setMaxSize maxSize =>
    refine ⟨H.wf.setMaxSize maxSize, ?_⟩
    rw [HpackDynamicTable.call, setMaxSize_maxSize]
    exact H.wf.setMaxSize_le maxSize
  | clear => exact ⟨WF.clear t, Nat.zero_le _⟩

theorem Sound.refines (H : t.Sound) : t.Refines ⟨t.entries, t.maxSize⟩ where
  size_eq := H.wf.size_eq
  size_le := H.size_le
  get_eq := t.get_eq
  find_eq := H.wf.find_eq
  evicts := H.wf.evicts

theorem entries_of_refines (h : t.Refines fifo) : t.entries = fifo.entries :=
  ext_getElem? fun i => (get_eq t i).symm.trans (h.get_eq i)

/-- A call does to the entries what it does to the queue, unless it turns their order round. -/
theorem Sound.entries_call (H : t.Sound) (c : TableCall) :
    (t.call c).entries = (HeaderFifo.call ⟨t.entries, t.maxSize⟩ c).entries ↔
      KeepsOrder t ⟨t.entries, t.maxSize⟩ c := by
  cases c with
  | setMaxSize maxSize =>
    refine ⟨fun _ => trivial, fun _ => ?_⟩
    exact (H.wf.withMaxSize maxSize).entries_evictWhile (Nat.zero_le _) le_rfl
  | clear => exact ⟨fun _ => trivial, fun _ => WF.entries_nil (show t.clear.count = 0 from rfl)⟩
  | add field =>
  rw [HpackDynamicTable.call, HeaderFifo.call, HeaderFifo.add, KeepsOrder, HeaderFifo.add,
    BoundedFifo.push, HpackDynamicTable.add]
  split
  · exact ⟨fun _ hlen => (nomatch hlen), fun _ => WF.entries_nil (t := t.clear) rfl⟩
  rename_i hfits
  simp only
  have hkept := H.wf.entries_evictWhile (Nat.le_of_not_lt hfits) le_rfl
  have hwf := H.wf.evictWhile field.size t.count
  have hring := evictWhile_length (t := t) field.size t.count
  rw [← hkept, length_cons, length_entries]
  split
  · rename_i hroom
    refine ⟨fun _ hlen => ?_, fun _ => hwf.entries_overwrite hroom field⟩
    omega
  rename_i hfull
  have hcount : (t.evictWhile field.size t.count).count = t.ring.length := by
    have := hwf.count_le
    omega
  rw [entries_grow, hcount, reverse_cons]
  exact ⟨fun h _ => h, fun h => h rfl⟩

theorem maxSize_call (c : TableCall) (entries : List Http2HeaderField) :
    (t.call c).maxSize = (HeaderFifo.call ⟨entries, t.maxSize⟩ c).maxSize := by
  cases c with
  | add field => exact add_maxSize field
  | setMaxSize maxSize => exact setMaxSize_maxSize maxSize
  | clear => rfl

/-! ## Runs -/

section Run

variable (maxSize : Nat)

theorem sound_run (calls : List TableCall) :
    (HpackDynamicTable.run { maxSize := maxSize } calls).Sound := by
  induction calls using List.reverseRecOn with
  | nil => exact ⟨WF.init maxSize, Nat.zero_le _⟩
  | append_singleton calls c ih =>
  rw [HpackDynamicTable.run, foldl_append]
  exact ih.call c

theorem maxSize_run (calls : List TableCall) :
    (HpackDynamicTable.run { maxSize := maxSize } calls).maxSize =
      (HeaderFifo.run ⟨[], maxSize⟩ calls).maxSize := by
  induction calls using List.reverseRecOn with
  | nil => rfl
  | append_singleton calls c ih =>
  rw [HpackDynamicTable.run, HeaderFifo.run, foldl_append, foldl_append]
  refine (maxSize_call c (HeaderFifo.run ⟨[], maxSize⟩ calls).entries).trans ?_
  exact congrArg (fun size => (HeaderFifo.call ⟨_, size⟩ c).maxSize) ih

theorem refines_run_iff (calls : List TableCall) :
    (HpackDynamicTable.run { maxSize := maxSize } calls).Refines
        (HeaderFifo.run ⟨[], maxSize⟩ calls) ↔
      (HpackDynamicTable.run { maxSize := maxSize } calls).entries =
        (HeaderFifo.run ⟨[], maxSize⟩ calls).entries := by
  refine ⟨entries_of_refines, fun h => ?_⟩
  have hrefines := (sound_run maxSize calls).refines
  rw [h, maxSize_run] at hrefines
  exact hrefines

theorem entries_snoc_iff (c : TableCall)
    (h : (HpackDynamicTable.run { maxSize := maxSize } calls).entries =
      (HeaderFifo.run ⟨[], maxSize⟩ calls).entries) :
    (HpackDynamicTable.run { maxSize := maxSize } (calls ++ [c])).entries =
        (HeaderFifo.run ⟨[], maxSize⟩ (calls ++ [c])).entries ↔
      KeepsOrder (HpackDynamicTable.run { maxSize := maxSize } calls)
        (HeaderFifo.run ⟨[], maxSize⟩ calls) c := by
  have hcall := (sound_run maxSize calls).entries_call c
  rw [h, maxSize_run] at hcall
  rw [HpackDynamicTable.run, HeaderFifo.run, foldl_append, foldl_append]
  exact hcall

end Run

/-- In every run of calls the table is the queue, in each state it reaches, just where no call makes
a ring of entries grow whose order matters. -/
theorem refines_iff (maxSize : Nat) (calls : List TableCall) :
    (∀ made, made <+: calls → (HpackDynamicTable.run { maxSize := maxSize } made).Refines
        (HeaderFifo.run ⟨[], maxSize⟩ made)) ↔
      ∀ made c rest, calls = made ++ c :: rest →
        KeepsOrder (HpackDynamicTable.run { maxSize := maxSize } made)
          (HeaderFifo.run ⟨[], maxSize⟩ made) c := by
  constructor
  · intro h made c rest heq
    have hbefore := entries_of_refines (h made ⟨c :: rest, heq.symm⟩)
    have hafter := entries_of_refines (h (made ++ [c]) ⟨rest, by rw [heq, append_assoc]; rfl⟩)
    exact (entries_snoc_iff maxSize c hbefore).1 hafter
  intro h made hmade
  rw [refines_run_iff]
  induction made using List.reverseRecOn with
  | nil => rfl
  | append_singleton made c ih =>
    obtain ⟨rest, heq⟩ := hmade
    rw [append_assoc] at heq
    exact (entries_snoc_iff maxSize c (ih ⟨_, heq⟩)).2 (h made c rest heq.symm)

/-- Nine entries of one byte each. -/
def nineEntries : List TableCall :=
  (List.range 9).map fun i => .add ⟨[UInt8.ofNat i], []⟩

/-- The ring grows at the ninth entry, and the first entry is taken for the newest. -/
theorem not_refines_nineEntries :
    ¬ (HpackDynamicTable.run { maxSize := 4096 } nineEntries).Refines
      (HeaderFifo.run ⟨[], 4096⟩ nineEntries) := by
  intro h
  have hget := h.get_eq 0
  revert hget
  decide +kernel

end HpackDynamicTable

end Galay.Http2
