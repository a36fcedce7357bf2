import Galay.Lib.Bytes
import Galay.Lib.OrderedMap
import Mathlib.Data.List.AList
import Mathlib.Order.Fin.Basic

/-!
# The consistent hash ring (`galay-utils/algorithm/consistent_hash.hpp`)

`ConsistentHash` with atomic calls: the published snapshot is the state. A node object is known by its
handle, so that two objects with one configuration are told apart.
-/

namespace Galay.Utils

open Galay.Lib

structure NodeConfig where
  id : Bytes
  endpoint : Bytes
  weight : Int := 1
  deriving DecidableEq, Repr

structure PhysicalNode where
  handle : Nat
  config : NodeConfig
  deriving DecidableEq, Repr

abbrev RingHash := Fin (2 ^ 32)

structure ConsistentHash where
  virtualNodes : Nat
  hashFunc : Bytes → RingHash
  ring : OrderedMap RingHash PhysicalNode := .empty
  nodes : AList fun _ : Bytes => PhysicalNode := ∅
  /-- The node objects that have been made. -/
  allocated : Nat := 0

namespace ConsistentHash

variable (hash : ConsistentHash)

def virtualKey (id : Bytes) (i : Nat) : Bytes := id ++ ascii "#" ++ ascii (toString i)

/-- `m_virtualNodes * config.weight`, in `size_t`. -/
def vnodes (config : NodeConfig) : Nat := (hash.virtualNodes * config.weight % 2 ^ 64).toNat

/-- The positions of the virtual nodes. -/
def positions (config : NodeConfig) : List RingHash :=
  (List.range (hash.vnodes config)).map fun i => hash.hashFunc (virtualKey config.id i)

def addNode (config : NodeConfig) : ConsistentHash :=
  let node : PhysicalNode := ⟨hash.allocated, config⟩
  { hash with
    nodes := hash.nodes.insert config.id node
    ring := (hash.positions config).foldl (fun ring position => ring.insert position node) hash.ring
    allocated := hash.allocated + 1 }

def removeNode (nodeId : Bytes) : ConsistentHash :=
  match hash.nodes.lookup nodeId with
  | none => hash
  | some node =>
    { hash with
      ring := (hash.positions { node.config with id := nodeId }).foldl OrderedMap.erase hash.ring
      nodes := hash.nodes.erase nodeId }

def clear : ConsistentHash := { hash with ring := .empty, nodes := ∅ }

def getNode (key : Bytes) : Option NodeConfig :=
  (hash.ring.successor (hash.hashFunc key)).map fun entry => entry.2.config

/-- The iterator at the end goes back to the beginning. -/
def wrap (it : List (RingHash × PhysicalNode)) : List (RingHash × PhysicalNode) :=
  if it = [] then hash.ring.entries else it

section
variable (healthy : PhysicalNode → Bool)

/-- The loop of `getHealthyNode`, from the iterator on. -/
def findHealthy (it : List (RingHash × PhysicalNode)) : Nat → Option NodeConfig
  | 0 => none
  | retries + 1 =>
    match hash.wrap it with
    | [] => none
    | entry :: next =>
      if healthy entry.2 then some entry.2.config else findHealthy next retries

def getHealthyNode (key : Bytes) (maxRetries : Nat) : Option NodeConfig :=
  hash.findHealthy healthy (hash.ring.lowerBound (hash.hashFunc key)) maxRetries

end

/-- The loop of `getNodes`, from the iterator on. The nodes that were seen are those of the result. -/
def collectNodes (count : Nat) (it : List (RingHash × PhysicalNode)) (result : List NodeConfig) :
    Nat → List NodeConfig
  | 0 => result
  | iterations + 1 =>
    if result.length < count then
      match hash.wrap it with
      | [] => result
      | entry :: next =>
        let result := if (result.map (·.id)).contains entry.2.config.id then result
          else result ++ [entry.2.config]
        collectNodes count next result iterations
    else result

def getNodes (key : Bytes) (count : Nat) : List NodeConfig :=
  hash.collectNodes count (hash.ring.lowerBound (hash.hashFunc key)) [] hash.ring.entries.length

end ConsistentHash

end Galay.Utils

/-!
# The ring and the nodes that are registered

A node that is added again overwrites its own positions. The ones that it does not take again keep
the object that was replaced, and `removeNode` takes its positions from whoever has them.
-/

namespace Galay.Utils

open Galay.Lib

inductive RingCall
  | addNode (config : NodeConfig)
  | removeNode (nodeId : Bytes)
  | clear
  deriving DecidableEq, Repr

namespace ConsistentHash

variable (hash : ConsistentHash)

def call : RingCall → ConsistentHash
  | .addNode config => hash.addNode config
  | .removeNode nodeId => hash.removeNode nodeId
  | .clear => hash.clear

/-- The positions that a node has are taken again when it is added again, and the positions of a node
that is removed are not those of another node. -/
def Sound : RingCall → Prop
  | .addNode config =>
    ∀ entry ∈ hash.ring.entries, entry.2.config.id = config.id → entry.1 ∈ hash.positions config
  | .removeNode nodeId =>
    ∀ node, hash.nodes.lookup nodeId = some node →
      ∀ entry ∈ hash.ring.entries, entry.1 ∈ hash.positions node.config →
        entry.2.config.id = nodeId
  | .clear => True

/-- A configuration of a node object that is registered under its id. -/
def Registered (config : NodeConfig) : Prop :=
  ∃ node, hash.nodes.lookup config.id = some node ∧ node.config = config

/-- The entries of the ring are the objects that are registered. -/
structure Intact : Prop where
  named : ∀ id node, hash.nodes.lookup id = some node → node.config.id = id
  registered : ∀ entry ∈ hash.ring.entries,
    hash.nodes.lookup entry.2.config.id = some entry.2
  placed : ∀ entry ∈ hash.ring.entries, entry.1 ∈ hash.positions entry.2.config

end ConsistentHash

/-- The rings that calls come to, when each of them is allowed. -/
inductive RingRun (virtualNodes : Nat) (hashFunc : Bytes → RingHash)
    (Allowed : ConsistentHash → RingCall → Prop) : ConsistentHash → Prop
  | new : RingRun virtualNodes hashFunc Allowed { virtualNodes, hashFunc }
  | call {hash : ConsistentHash} (next : RingCall)
    (hrun : RingRun virtualNodes hashFunc Allowed hash) (hallowed : Allowed hash next) :
    RingRun virtualNodes hashFunc Allowed (hash.call next)

open ConsistentHash

variable {hash : ConsistentHash}

variable {config : NodeConfig}

theorem mem_addNode_ring : entry ∈ (hash.addNode config).ring.entries ↔
      entry.1 ∈ hash.positions config ∧ entry.2 = ⟨hash.allocated, config⟩ ∨
        entry ∈ hash.ring.entries ∧ entry.1 ∉ hash.positions config :=
  OrderedMap.mem_foldl_insert _

/-- Only the entries of the replaced object could be wrong, and none of them is left. -/
theorem Intact.addNode (h : hash.Intact) (hsound : hash.Sound (.addNode config)) :
    (hash.addNode config).Intact where
  named id node hlook := by
    by_cases hid : id = config.id
    · subst hid
      rw [ConsistentHash.addNode, AList.lookup_insert] at hlook
      rw [← Option.some.inj hlook]
    rw [ConsistentHash.addNode, AList.lookup_insert_ne hid] at hlook
    exact h.named id node hlook
  registered entry hmem := by
    rcases mem_addNode_ring.1 hmem with ⟨-, hnode⟩ | ⟨hold, hpos⟩
    · rw [hnode]
      exact AList.lookup_insert hash.nodes
    have hid : entry.2.config.id ≠ config.id := fun hid => hpos (hsound entry hold hid)
    rw [ConsistentHash.addNode, AList.lookup_insert_ne hid]
    exact h.registered entry hold
  placed entry hmem := by
    rcases mem_addNode_ring.1 hmem with ⟨hpos, hnode⟩ | ⟨hold, -⟩
    · rw [hnode]
      exact hpos
    exact h.placed entry hold

theorem removeNode_eq (h : hash.Intact) (hlook : hash.nodes.lookup nodeId = some node) :
    hash.removeNode nodeId = { hash with
        ring := (hash.positions node.config).foldl OrderedMap.erase hash.ring
        nodes := hash.nodes.erase nodeId } := by
  have hid := h.named nodeId node hlook
  rw [removeNode, hlook]
  simp only [← hid]

theorem Intact.removeNode (h : hash.Intact) (nodeId : Bytes) : (hash.removeNode nodeId).Intact := by
  cases hlook : hash.nodes.lookup nodeId with
  | none =>
    rw [ConsistentHash.removeNode, hlook]
    exact h
  | some node =>
  rw [removeNode_eq h hlook]
  refine ⟨fun id other hother => ?_, fun entry hmem => ?_, fun entry hmem => ?_⟩
  · by_cases hid : id = nodeId
    · rw [hid, AList.lookup_erase] at hother
      nomatch hother
    rw [AList.lookup_erase_ne hid] at hother
    exact h.named id other hother
  · obtain ⟨hold, hpos⟩ := (OrderedMap.mem_foldl_erase _).1 hmem
    have hreg := h.registered entry hold
    have hid : entry.2.config.id ≠ nodeId := by
      intro hid
      rw [hid, hlook] at hreg
      rw [Option.some.inj hreg] at hpos
      exact hpos (h.placed entry hold)
    rw [AList.lookup_erase_ne hid]
    exact hreg
  exact h.placed entry ((OrderedMap.mem_foldl_erase _).1 hmem).1

theorem Intact.call (h : hash.Intact) {next : RingCall} (hsound : hash.Sound next) :
    (hash.call next).Intact := by
  cases next with
  | addNode config => exact Intact.addNode h hsound
  | removeNode nodeId => exact Intact.removeNode h nodeId
  | clear => exact ⟨nofun, nofun, nofun⟩

variable {virtualNodes : Nat} {hashFunc : Bytes → RingHash}

theorem RingRun.intact (hrun : RingRun virtualNodes hashFunc ConsistentHash.Sound hash) :
    hash.Intact := by
  induction hrun with
  | new => exact ⟨nofun, nofun, nofun⟩
  | call next hrun hallowed ih => exact Intact.call ih hallowed

/-! ## What the lookups return -/

/-- A configuration of an object of the ring. -/
def OfRing (hash : ConsistentHash) (config : NodeConfig) : Prop :=
  ∃ entry ∈ hash.ring.entries, entry.2.config = config

theorem Intact.registered_of_ring (h : hash.Intact) (hring : OfRing hash config) :
    hash.Registered config := by
  obtain ⟨entry, hmem, rfl⟩ := hring
  exact ⟨entry.2, h.registered entry hmem, rfl⟩

theorem getNode_ofRing (hget : hash.getNode key = some config) : OfRing hash config := by
  obtain ⟨entry, hentry, hconfig⟩ := Option.map_eq_some_iff.1 hget
  exact ⟨entry, (OrderedMap.isSuccessor_of_successor hentry).1, hconfig⟩

theorem mem_lowerBound (hmem : entry ∈ hash.ring.lowerBound position) : entry ∈ hash.ring.entries :=
  (List.dropWhile_sublist _).mem hmem

variable {it : List (RingHash × PhysicalNode)}

section

variable (hit : ∀ entry ∈ it, entry ∈ hash.ring.entries)

include hit

theorem wrap_sub :
    ∀ entry ∈ hash.wrap it, entry ∈ hash.ring.entries := by
  unfold wrap
  split
  · exact fun entry hmem => hmem
  exact hit

theorem findHealthy_ofRing
    (hfind : hash.findHealthy healthy it retries = some config) : OfRing hash config := by
  induction retries generalizing it with
  | zero => nomatch hfind
  | succ retries ih =>
  have hwrap := wrap_sub hit
  unfold findHealthy at hfind
  split at hfind
  · nomatch hfind
  next entry next heq =>
  rw [heq] at hwrap
  split at hfind
  · exact ⟨entry, hwrap entry List.mem_cons_self, Option.some.inj hfind⟩
  exact ih (fun e he => hwrap e (List.mem_cons_of_mem _ he)) hfind

theorem collectNodes_ofRing (hres : ∀ config ∈ result, OfRing hash config) :
    ∀ config ∈ hash.collectNodes count it result iterations, OfRing hash config := by
  induction iterations generalizing it result with
  | zero => exact hres
  | succ iterations ih =>
  have hwrap := wrap_sub hit
  unfold collectNodes
  split
  · split
    · exact hres
    next entry next heq =>
    rw [heq] at hwrap
    refine ih (fun e he => hwrap e (List.mem_cons_of_mem _ he)) (fun config hmem => ?_)
    split at hmem
    · exact hres config hmem
    rcases List.mem_append.1 hmem with hmem | hmem
    · exact hres config hmem
    exact ⟨entry, hwrap entry List.mem_cons_self, (List.mem_singleton.1 hmem).symm⟩
  exact hres

end

/-! ## The law -/

/-- Where no position is taken from another node, only the keys of the removed node move. -/
theorem getNode_removeNode (h : hash.Intact) (hsound : hash.Sound (.removeNode nodeId))
    (hmoved : (hash.removeNode nodeId).getNode key ≠ hash.getNode key) :
    ∃ config, hash.getNode key = some config ∧ config.id = nodeId := by
  cases hlook : hash.nodes.lookup nodeId with
  | none =>
    rw [ConsistentHash.removeNode, hlook] at hmoved
    exact absurd rfl hmoved
  | some node =>
  have hmem (entry : RingHash × PhysicalNode) : entry ∈ (hash.removeNode nodeId).ring.entries ↔
      entry ∈ hash.ring.entries ∧ entry.1 ∉ hash.positions node.config := by
    rw [removeNode_eq h hlook]
    exact OrderedMap.mem_foldl_erase _
  have hfunc : (hash.removeNode nodeId).hashFunc = hash.hashFunc := by rw [removeNode_eq h hlook]
  unfold getNode at hmoved ⊢
  rw [hfunc] at hmoved
  cases hentry : hash.ring.successor (hash.hashFunc key) with
  | some entry =>
    refine ⟨entry.2.config, rfl, ?_⟩
    by_contra hid
    have hring := (OrderedMap.isSuccessor_of_successor hentry).1
    have hpos : entry.1 ∉ hash.positions node.config := fun hpos =>
      hid (hsound node hlook entry hring hpos)
    have hkept := OrderedMap.successor_of_subset hentry ((hmem entry).2 ⟨hring, hpos⟩)
      (fun e he => ((hmem e).1 he).1)
    rw [hkept, hentry] at hmoved
    exact hmoved rfl
  | none =>
  cases hafter : (hash.removeNode nodeId).ring.successor (hash.hashFunc key) with
  | none =>
    rw [hafter, hentry] at hmoved
    exact absurd rfl hmoved
  | some entry =>
  have hring := ((hmem entry).1 (OrderedMap.isSuccessor_of_successor hafter).1).1
  have hempty := (Option.or_eq_none_iff.1 hentry).2
  rw [List.head?_eq_none_iff.1 hempty] at hring
  exact absurd hring List.not_mem_nil

/-- As long as a node that is added again takes all its positions again, the ring refers to the objects
that are registered and the lookups return nothing else. The removal of a node that shares no
position with another one moves only its own keys. -/
theorem ring_of_soundRun (hrun : RingRun virtualNodes hashFunc ConsistentHash.Sound hash) :
    (∀ entry ∈ hash.ring.entries, hash.nodes.lookup entry.2.config.id = some entry.2) ∧
    (∀ key config, hash.getNode key = some config → hash.Registered config) ∧
    (∀ healthy key maxRetries config,
      hash.getHealthyNode healthy key maxRetries = some config → hash.Registered config) ∧
    (∀ key count, ∀ config ∈ hash.getNodes key count, hash.Registered config) ∧
    ∀ nodeId, hash.Sound (.removeNode nodeId) → ∀ key,
      (hash.removeNode nodeId).getNode key ≠ hash.getNode key →
        ∃ config, hash.getNode key = some config ∧ config.id = nodeId := by
  have h := hrun.intact
  refine ⟨h.registered, ?_, ?_, ?_, ?_⟩
  · exact fun key config hget => Intact.registered_of_ring h (getNode_ofRing hget)
  · exact fun healthy key maxRetries config hget =>
      Intact.registered_of_ring h (findHealthy_ofRing (fun _ hmem => mem_lowerBound hmem) hget)
  · exact fun key count config hmem =>
      Intact.registered_of_ring h
        (collectNodes_ofRing (fun _ hmem => mem_lowerBound hmem)
          (fun _ hmem => absurd hmem List.not_mem_nil) config hmem)
  · exact fun nodeId hsound key hmoved => getNode_removeNode h hsound hmoved

/-- A key is hashed to the sum of its bytes. -/
def byteSum (key : Bytes) : RingHash := Fin.ofNat _ (key.map UInt8.toNat).sum

/-- A node is added again with a greater weight. -/
theorem ring_of_greater_weight :
    ∃ hash, RingRun 1 byteSum ConsistentHash.Sound hash ∧
      hash.getNode (ascii "a#1") = some ⟨ascii "a", ascii "y", 2⟩ ∧
      hash.Registered ⟨ascii "a", ascii "y", 2⟩ := by
  have hadded : RingRun 1 byteSum ConsistentHash.Sound _ :=
    RingRun.new.call (.addNode ⟨ascii "a", ascii "x", 1⟩) (by nofun)
  have hagain := hadded.call (.addNode ⟨ascii "a", ascii "y", 2⟩) (by
    simp only [ConsistentHash.Sound]
    decide)
  obtain ⟨-, hget, -⟩ := ring_of_soundRun hagain
  exact ⟨_, hagain, by decide, hget (ascii "a#1") _ (by decide)⟩

/-- A node that is added again with a smaller weight is still found with its old configuration, and
the removal of a node takes the position of another one. -/
theorem ring_superseded :
    (∃ hash, RingRun 1 byteSum (fun _ _ => True) hash ∧
      hash.getNode (ascii "a#1") = some ⟨ascii "a", ascii "x", 2⟩ ∧
      ¬ hash.Registered ⟨ascii "a", ascii "x", 2⟩) ∧
    ∃ hash, RingRun 1 byteSum (fun _ _ => True) hash ∧
      hash.getNode (ascii "b#0") = some ⟨ascii "b", ascii "z", 1⟩ ∧
      (hash.removeNode (ascii "a")).getNode (ascii "b#0") = none := by
  constructor
  · have hadded : RingRun 1 byteSum (fun _ _ => True) _ :=
      RingRun.new.call (.addNode ⟨ascii "a", ascii "x", 2⟩) trivial
    have hagain := hadded.call (.addNode ⟨ascii "a", ascii "y", 1⟩) trivial
    refine ⟨_, hagain, by decide, ?_⟩
    rintro ⟨node, hlook, hconfig⟩
    cases hlook
    nomatch hconfig
  have hadded : RingRun 1 byteSum (fun _ _ => True) _ :=
    RingRun.new.call (.addNode ⟨ascii "a", ascii "x", 2⟩) trivial
  have hother := hadded.call (.addNode ⟨ascii "b", ascii "z", 1⟩) trivial
  exact ⟨_, hother, by decide, by decide⟩

end Galay.Utils
