import Galay.Redis.ClusterRedirects
import Mathlib.Data.List.Induction

/-!
# The slot table: ranges, `CLUSTER SLOTS` and the slot of a key
-/

namespace Galay.Redis

open List
open Galay.Lib

variable {δ : Type}

/-! ## The loop over a range -/

/-- How the loop over a range of slots ends, if it does. -/
inductive Fill
  | filled (table : Slot → Int)
  | outside
  | running

/-- The loop of `addNode` and of `setSlotRange`, for a number of turns; `slot` is a `uint16_t`. -/
def fillLoop (stop : UInt16) (owner : Int) : Nat → UInt16 → (Slot → Int) → Fill
  | 0, _, _ => .running
  | turns + 1, slot, table =>
    if slot ≤ stop then
      if h : slot.toNat < 16384 then
        let table := Function.update table ⟨slot.toNat, h⟩ owner
        if slot = 16383 then .filled table else fillLoop stop owner turns (slot + 1) table
      else .outside
    else .filled table

theorem fillLoop_filled (hslot : slot.toNat < 16384) (hturns : 16384 ≤ slot.toNat + turns) :
    fillLoop stop owner turns slot table = .filled fun s =>
      if slot.toNat ≤ s.val ∧ s.val ≤ stop.toNat then owner else table s := by
  induction turns generalizing slot table with
  | zero => omega
  | succ turns ih =>
  rw [fillLoop]
  by_cases hle : slot ≤ stop
  · have hstop : slot.toNat ≤ stop.toNat := UInt16.le_iff_toNat_le.1 hle
    rw [if_pos hle, dif_pos hslot]
    simp only
    by_cases hlast : slot = 16383
    · rw [if_pos hlast]
      refine congrArg Fill.filled (funext fun s => ?_)
      have hnat : slot.toNat = 16383 := by rw [hlast]; rfl
      by_cases hs : s = ⟨slot.toNat, hslot⟩
      · rw [hs, Function.update_self, if_pos ⟨Nat.le_refl _, hstop⟩]
      have hval : s.val ≠ slot.toNat := fun h => hs (Fin.ext h)
      have hlt := s.isLt
      rw [Function.update_of_ne hs, if_neg (by omega)]
    have hne : slot.toNat ≠ 16383 := fun h => hlast (UInt16.toNat_inj.1 h)
    have hnext : (slot + 1).toNat = slot.toNat + 1 := by
      rw [UInt16.toNat_add]
      exact Nat.mod_eq_of_lt (by change slot.toNat + 1 < 65536; omega)
    rw [if_neg hlast, ih (by omega) (by omega), hnext]
    refine congrArg Fill.filled (funext fun s => ?_)
    by_cases hs : s = ⟨slot.toNat, hslot⟩
    · rw [hs, Function.update_self, if_neg (by simp), if_pos ⟨Nat.le_refl _, hstop⟩]
    have hval : s.val ≠ slot.toNat := fun h => hs (Fin.ext h)
    rw [Function.update_of_ne hs]
    exact if_congr (by omega) rfl rfl
  have hstop : ¬ slot.toNat ≤ stop.toNat := fun h => hle (UInt16.le_iff_toNat_le.2 h)
  rw [if_neg hle]
  exact congrArg Fill.filled (funext fun s => (if_neg (by omega)).symm)

namespace RedisClusterClient

variable {client : RedisClusterClient} {start stop : UInt16} {owner : Int} {slot : Slot}

/-- A call installs its range: the loop ends inside of the table, the call keeps what the loop has
left, and the slots of the range belong to the node while all others keep their owner. -/
def Installs (client : RedisClusterClient) (call : Option RedisClusterClient) (owner : Int)
    (start stop : UInt16) : Prop :=
  ∃ turns next, fillLoop stop owner turns start client.slotOwner = .filled next.slotOwner ∧
    call = some next ∧ ∀ slot : Slot, next.slotOwner slot =
      if start.toNat ≤ slot.val ∧ slot.val ≤ min stop.toNat 16383 then owner
      else client.slotOwner slot

theorem assignRange_inside (h : start ≤ 16383 ∨ stop < start) :
    ∃ table, client.assignRange start stop owner = some table ∧
      (∃ turns, fillLoop stop owner turns start client.slotOwner = .filled table) ∧
      ∀ slot : Slot, table slot =
        if start.toNat ≤ slot.val ∧ slot.val ≤ min stop.toNat 16383 then owner
        else client.slotOwner slot := by
  have hassign : ¬ (start ≤ stop ∧ 16383 < start) := fun hboth =>
    h.elim (UInt16.not_le.2 hboth.2) (UInt16.not_lt.2 hboth.1)
  refine ⟨_, if_neg hassign, ?_, fun slot => if_congr (by have := slot.isLt; omega) rfl rfl⟩
  by_cases hstart : start ≤ 16383
  · have hlt : start.toNat ≤ (16383 : UInt16).toNat := UInt16.le_iff_toNat_le.1 hstart
    exact ⟨16384, fillLoop_filled (Nat.lt_succ_of_le hlt) (Nat.le_add_left _ _)⟩
  have hlt := h.resolve_left hstart
  have hnat : stop.toNat < start.toNat := UInt16.lt_iff_toNat_lt.1 hlt
  refine ⟨1, (if_neg (UInt16.not_le.2 hlt)).trans (congrArg Fill.filled (funext fun s => ?_))⟩
  exact (if_neg (by omega)).symm

theorem assignRange_outside (h : ¬ (start ≤ 16383 ∨ stop < start)) :
    client.assignRange start stop owner = none := by
  obtain ⟨hstart, hstop⟩ := not_or.1 h
  exact if_pos ⟨UInt16.not_lt.1 hstop, UInt16.not_le.1 hstart⟩

theorem installs_iff (hstore : ∀ table, (store table).slotOwner = table) :
    client.Installs ((client.assignRange start stop owner).map store) owner start stop ↔
      start ≤ 16383 ∨ stop < start := by
  constructor
  · rintro ⟨turns, next, -, hcall, -⟩
    by_contra hout
    rw [assignRange_outside hout] at hcall
    cases hcall
  intro hin
  obtain ⟨table, hassign, ⟨turns, hfill⟩, htable⟩ :=
    @assignRange_inside client start stop owner hin
  rw [hassign]
  refine ⟨turns, store table, ?_, rfl, fun slot => ?_⟩
  · rw [hstore, hfill]
  rw [hstore, htable]

/-- A range is installed exactly when it starts inside of the table or is empty. -/
theorem slotRanges_installed_iff (client : RedisClusterClient) :
    (∀ address : NodeAddress, client.Installs (client.addNode address) client.nodes.length
        address.slotStart address.slotEnd ↔
      address.slotStart ≤ 16383 ∨ address.slotEnd < address.slotStart) ∧
    ∀ nodeIndex < client.nodes.length, ∀ slotStart slotEnd : UInt16,
      client.Installs (client.setSlotRange nodeIndex slotStart slotEnd) nodeIndex slotStart slotEnd ↔
        slotStart ≤ 16383 ∨ slotEnd < slotStart := by
  constructor
  · intro address
    have hcall : client.addNode address =
        (client.assignRange address.slotStart address.slotEnd client.nodes.length).map
          fun slotOwner => { client with
            nodes := client.nodes ++ [{ address }], slotOwner, slotCacheReady := true } := by
      rw [addNode]
      cases client.assignRange .. <;> rfl
    rw [hcall]
    exact installs_iff fun _ => rfl
  intro nodeIndex hindex slotStart slotEnd
  have hcall : client.setSlotRange nodeIndex slotStart slotEnd =
      (client.assignRange slotStart slotEnd nodeIndex).map fun slotOwner => { client with
        nodes := client.nodes.modify nodeIndex fun node =>
          { node with address := { node.address with slotStart, slotEnd } }
        slotOwner, slotCacheReady := true } := by
    rw [setSlotRange, if_neg (Nat.not_le.2 hindex)]
    cases client.assignRange .. <;> rfl
  rw [hcall]
  exact installs_iff fun _ => rfl

/-- A range of one slot behind the table. -/
theorem not_installs_behind :
    ¬ ({} : RedisClusterClient).Installs
      (({} : RedisClusterClient).addNode { slotStart := 16384, slotEnd := 16384 }) 0 16384 16384 := by
  rintro ⟨turns, next, -, hcall, -⟩
  cases hcall

/-! ## The answer to `CLUSTER SLOTS` -/

/-- The call as the client sees it. -/
def applySlots (client : RedisClusterClient) (values : List (RedisReply δ)) (now : Nat) :
    Bool × RedisClusterClient :=
  match client.applyClusterSlots values now with
  | .ok next => (true, next)
  | .error _ => (false, client)

/-- The master in the last row that is well formed and has the slot. -/
def lastMaster (rows : List (RedisReply δ)) (slot : Slot) : Option Endpoint :=
  ((rows.filterMap parseSlotsRow).reverse.find? fun (start, stop, _) =>
    start ≤ slot.val ∧ slot.val ≤ stop).map fun (_, _, master) => master

/-- Nodes that share an address have done so before. -/
def NoNewTwins (before client : RedisClusterClient) : Prop :=
  ∀ i j endpoint, i < j → client.endpointAt i = some endpoint →
    client.endpointAt j = some endpoint →
    before.endpointAt i = some endpoint ∧ before.endpointAt j = some endpoint

/-- What some rows have made of the client and of the new table. -/
structure Applied (before : RedisClusterClient) (rows : List (RedisReply δ))
    (state : RedisClusterClient × (Slot → Int)) : Prop where
  noTwins : NoNewTwins before state.1
  owner : ∀ slot endpoint, lastMaster rows slot = some endpoint →
    ∃ i : Nat, state.2 slot = i ∧ state.1.endpointAt i = some endpoint

theorem findOrCreateNode_noTwins (h : NoNewTwins before client)
    (host : Bytes) (port : Int) : NoNewTwins before (client.findOrCreateNode host port).1 := by
  unfold findOrCreateNode
  split
  · exact h
  next hnone =>
    intro i j endpoint hij hi hj
    simp only [endpointAt, Option.map_eq_some_iff] at hi hj
    obtain ⟨node, hnode, hend⟩ := hi
    obtain ⟨node', hnode', hend'⟩ := hj
    have hjlt := (List.getElem?_eq_some_iff.1 hnode').1
    rw [length_append, length_singleton] at hjlt
    rw [getElem?_append_left (by omega)] at hnode
    by_cases hold : j < client.nodes.length
    · rw [getElem?_append_left hold] at hnode'
      exact h i j endpoint hij (by rw [endpointAt, hnode, Option.map_some, hend])
        (by rw [endpointAt, hnode', Option.map_some, hend'])
    have hlast : j = client.nodes.length := by omega
    rw [hlast, getElem?_concat_length] at hnode'
    cases hnode'
    have hfound := List.findIdx?_eq_none_iff.1 hnone node (mem_of_getElem? hnode)
    have hsame : node.address.host = host ∧ node.address.port = port :=
      Prod.mk.injEq .. ▸ hend.trans hend'.symm
    exact absurd hsame (of_decide_eq_false hfound)

/-- A row that is well formed keeps every address where it is, but for a node that it creates. -/
theorem applySlotsRow_some {row : RedisReply δ} {start stop : Nat}
    (hrow : parseSlotsRow row = some (start, stop, host, port))
    (state : RedisClusterClient × (Slot → Int)) : ∃ next : RedisClusterClient,
      (∀ i, next.endpointAt i = (state.1.findOrCreateNode host port).1.endpointAt i) ∧
      applySlotsRow state row = (next, fun slot =>
        if start ≤ slot.val ∧ slot.val ≤ stop then ((state.1.findOrCreateNode host port).2 : Int)
        else state.2 slot) := by
  rw [applySlotsRow, hrow]
  exact ⟨_, endpointAt_modify (by intro node; rfl) rfl, rfl⟩

theorem Applied.row (H : Applied before rows state)
    (row : RedisReply δ) : Applied before (rows ++ [row]) (applySlotsRow state row) := by
  cases hrow : parseSlotsRow row with
  | none =>
    rw [applySlotsRow, hrow]
    refine ⟨H.noTwins, fun slot endpoint hlast => H.owner slot endpoint ?_⟩
    simpa [lastMaster, hrow] using hlast
  | some parsed =>
  obtain ⟨start, stop, host, port⟩ := parsed
  obtain ⟨next, hnext, heq⟩ := applySlotsRow_some hrow state
  rw [heq]
  constructor
  · intro i j endpoint hij hi hj
    rw [hnext] at hi hj
    exact findOrCreateNode_noTwins H.noTwins host port i j endpoint hij hi hj
  intro slot endpoint hlast
  by_cases hin : start ≤ slot.val ∧ slot.val ≤ stop
  · have hmaster : (host, port) = endpoint := by simpa [lastMaster, hrow, hin] using hlast
    refine ⟨_, if_pos hin, ?_⟩
    rw [hnext, ← hmaster]
    exact findOrCreateNode_endpointAt host port
  have hbefore : lastMaster rows slot = some endpoint := by
    simpa [lastMaster, hrow, hin] using hlast
  obtain ⟨i, hi, hat⟩ := H.owner slot endpoint hbefore
  refine ⟨i, (if_neg hin).trans hi, ?_⟩
  rw [hnext]
  exact findOrCreateNode_extends host port i endpoint hat

theorem applied_rows (before : RedisClusterClient) (rows : List (RedisReply δ)) :
    Applied before rows (rows.foldl applySlotsRow (before, fun _ => -1)) := by
  induction rows using List.reverseRecOn with
  | nil => exact ⟨fun _ _ _ _ hi hj => ⟨hi, hj⟩, nofun⟩
  | append_singleton rows row ih =>
  rw [foldl_concat]
  exact ih.row row

theorem applySlotsRow_filter (state : RedisClusterClient × (Slot → Int))
    (rows : List (RedisReply δ)) :
    (rows.filter fun row => (parseSlotsRow row).isSome).foldl applySlotsRow state =
      rows.foldl applySlotsRow state := by
  induction rows generalizing state with
  | nil => rfl
  | cons row rows ih =>
  cases hrow : parseSlotsRow row with
  | none =>
    rw [filter_cons_of_neg (by simp [hrow]), foldl_cons, ih]
    exact congrArg (rows.foldl applySlotsRow ·) (by rw [applySlotsRow, hrow])
  | some parsed =>
  rw [filter_cons_of_pos (by simp [hrow]), foldl_cons, ih, foldl_cons]

end RedisClusterClient

/-! ## The slot of a key -/

/-- The text between the first brace of the key and the next closing brace. -/
def HashTag (key tag : Bytes) : Prop :=
  tag ≠ [] ∧ 0x7D ∉ tag ∧
    ∃ before after, 0x7B ∉ before ∧ key = before ++ 0x7B :: (tag ++ 0x7D :: after)

theorem extractHashTag_of_hashTag (h : HashTag key tag) : extractHashTag key = tag := by
  obtain ⟨hne, hclose, before, after, hopen, rfl⟩ := h
  have hdrop : (before ++ 0x7B :: (tag ++ 0x7D :: after)).dropWhile (· ≠ 0x7B) =
      0x7B :: (tag ++ 0x7D :: after) := by
    rw [dropWhile_append_of_pos]
    · rfl
    exact fun c hc => decide_eq_true fun heq => hopen (heq ▸ hc)
  have htake : (tag ++ 0x7D :: after).takeWhile (· ≠ 0x7D) = tag := by
    rw [takeWhile_append_of_pos]
    · simp
    exact fun c hc => decide_eq_true fun heq => hclose (heq ▸ hc)
  rw [extractHashTag, hdrop]
  simp only [htake]
  rw [if_neg]
  simp [hne]

theorem extractHashTag_of_open (h : 0x7D ∉ key) : extractHashTag key = key := by
  unfold extractHashTag
  split
  · rfl
  next behind hdrop =>
    have hmem : 0x7D ∉ behind := fun hmem => h ((dropWhile_suffix _).subset
      (hdrop ▸ mem_cons_of_mem _ hmem))
    have hall : behind.takeWhile (· ≠ 0x7D) = behind :=
      List.takeWhile_eq_self_iff.2 fun c hc => decide_eq_true fun heq => hmem (heq ▸ hc)
    exact if_pos (.inl (by rw [hall]))

open RedisClusterClient in
/-- An answer is refused, and then nothing changes, or every slot belongs to the master in the last
row that names it. Keys with one tag have one slot. -/
theorem clusterSlots_applied (client : RedisClusterClient) (values : List (RedisReply δ))
    (now : Nat) :
    (client.applySlots values now = (false, client) ∨
      ∃ rows rest next, values = .array .Array rows :: rest ∧
        client.applySlots values now = (true, next) ∧
        (∀ slot endpoint, lastMaster rows slot = some endpoint → next.Owned slot endpoint) ∧
        client.applySlots (.array .Array (rows.filter fun row => (parseSlotsRow row).isSome) :: rest)
          now = (true, next) ∧
        NoNewTwins client next) ∧
    ∀ key key' tag, HashTag key tag → HashTag key' tag ∨ key' = tag →
      keySlot key = keySlot key' ∧ (keySlot key).val < 16384 := by
  constructor
  · rcases values with _ | ⟨first, rest⟩
    · exact .inl rfl
    by_cases harray : first.isArray
    · obtain ⟨rows, rfl⟩ : ∃ rows, first = .array .Array rows := by
        unfold RedisReply.isArray at harray
        split at harray
        · exact ⟨_, rfl⟩
        · cases harray
      have happlied := applied_rows client rows
      refine .inr ⟨rows, rest, _, rfl, rfl, happlied.owner, ?_, happlied.noTwins⟩
      simp only [applySlots, applyClusterSlots, RedisReply.isArray, RedisReply.toArray,
        applySlotsRow_filter]
      rfl
    refine .inl ?_
    rw [applySlots, applyClusterSlots, if_pos (by simp [harray])]
  intro key key' tag htag hsame
  refine ⟨?_, (keySlot key).isLt⟩
  have htag' : extractHashTag key' = tag := by
    rcases hsame with htag' | rfl
    · exact extractHashTag_of_hashTag htag'
    · exact extractHashTag_of_open htag.2.1
  rw [keySlot, keySlot, extractHashTag_of_hashTag htag, htag']

end Galay.Redis
