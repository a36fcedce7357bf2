import Galay.Lib.WrappedIndex

/-!
# Load balancers (`galay-utils/tool/balancer.hpp`, `balancer.inl`)

An index or a weight of thirty-two bits wraps where the machine's does. `m_current_index` of the
weighted balancer is never read.
-/

namespace Galay.Utils

variable {T : Type*}

/-! ## Round robin -/

structure RoundRobinLoadBalancer (T : Type*) where
  nodes : List T
  index : UInt32 := 0

namespace RoundRobinLoadBalancer

variable (balancer : RoundRobinLoadBalancer T)

/-- The position of the node that the next call returns. -/
def position : Nat := balancer.index.toNat % balancer.nodes.length

def select : Option T × RoundRobinLoadBalancer T :=
  if balancer.nodes = [] then (none, balancer)
  else (balancer.nodes[balancer.position]?, { balancer with index := balancer.index + 1 })

end RoundRobinLoadBalancer

/-! ## Smooth weighted round robin -/

/-- A value as it is stored in thirty-two bits with a sign. -/
def toInt32 (value : Int) : Int := Int.bmod value (2 ^ 32)

structure WeightedNode (T : Type*) where
  node : T
  currentWeight : Int := 0
  fixedWeight : UInt32

namespace WeightedNode

def raise (node : WeightedNode T) : WeightedNode T :=
  { node with currentWeight := toInt32 (node.currentWeight + node.fixedWeight.toNat) }

def lower (node : WeightedNode T) (totalWeight : Int) : WeightedNode T :=
  { node with currentWeight := toInt32 (node.currentWeight - totalWeight) }

end WeightedNode

structure WeightRoundRobinLoadBalancer (T : Type*) where
  nodes : List (WeightedNode T)

namespace WeightRoundRobinLoadBalancer

/-- The constructor, which throws when the lengths differ. -/
def ofNodes (nodes : List T) (weights : List UInt32) : Option (WeightRoundRobinLoadBalancer T) :=
  if nodes.length ≠ weights.length then none
  else some ⟨nodes.zipWith (fun node fixedWeight => { node, fixedWeight }) weights⟩

/-- The first loop of `select`: the raised nodes and the position of the selected one. -/
def raiseAll : List (WeightedNode T) → (position : Nat) → (maxWeight : Int) →
    (selected : Option Nat) → List (WeightedNode T) × Option Nat
  | [], _, _, selected => ([], selected)
  | node :: nodes, position, maxWeight, selected =>
    let node := node.raise
    let rest :=
      if maxWeight < node.currentWeight then
        raiseAll nodes (position + 1) node.currentWeight (some position)
      else raiseAll nodes (position + 1) maxWeight selected
    (node :: rest.1, rest.2)

/-- The second loop of `select`. -/
def totalWeight (nodes : List (WeightedNode T)) : Int :=
  nodes.foldl (fun total node => toInt32 (total + node.fixedWeight.toNat)) 0

variable (balancer : WeightRoundRobinLoadBalancer T)

/-- The position of the node that the next call returns. -/
def position : Option Nat := (raiseAll balancer.nodes 0 (-2 ^ 31) none).2

def select : Option T × WeightRoundRobinLoadBalancer T :=
  if balancer.nodes = [] then (none, balancer)
  else
    match raiseAll balancer.nodes 0 (-2 ^ 31) none with
    | (nodes, none) => (none, ⟨nodes⟩)
    | (nodes, some selected) =>
      (nodes[selected]?.map WeightedNode.node,
        ⟨nodes.modify selected fun node => node.lower (totalWeight nodes)⟩)

end WeightRoundRobinLoadBalancer

end Galay.Utils

/-!
# Round robin on long runs

The index counts to `2 ^ 32` and starts again. As many calls as there are nodes return each position
once, unless the index wraps among them and the number of nodes does not divide `2 ^ 32`.
-/

namespace Galay.Utils.RoundRobinLoadBalancer

open Lib

variable {T : Type*} {balancer : RoundRobinLoadBalancer T}

/-- The balancer after `n` calls. -/
def after (balancer : RoundRobinLoadBalancer T) : Nat → RoundRobinLoadBalancer T
  | 0 => balancer
  | n + 1 => after balancer.select.2 n

/-- What `n` calls return. -/
def selects (balancer : RoundRobinLoadBalancer T) : Nat → List (Option T)
  | 0 => []
  | n + 1 => balancer.select.1 :: selects balancer.select.2 n

/-- The positions of the nodes that `n` calls return. -/
def positions (balancer : RoundRobinLoadBalancer T) : Nat → List Nat
  | 0 => []
  | n + 1 => balancer.position :: positions balancer.select.2 n

section

variable (h : balancer.nodes ≠ [])
include h

theorem select_of_ne_nil :
    balancer.select =
      (balancer.nodes[balancer.position]?, { balancer with index := balancer.index + 1 }) :=
  if_neg h

theorem selects_eq (n : Nat) :
    balancer.selects n = (balancer.positions n).map (balancer.nodes[·]?) := by
  induction n generalizing balancer with
  | zero => rfl
  | succ n ih =>
  have hselect := select_of_ne_nil h
  have hnodes : balancer.select.2.nodes = balancer.nodes := by rw [hselect]
  rw [selects, positions, List.map_cons, ih (by rwa [hnodes]), hnodes, hselect]

theorem after_eq (n : Nat) :
    balancer.after n = { balancer with index := balancer.index + UInt32.ofNat n } := by
  induction n generalizing balancer with
  | zero =>
    have hzero : balancer.index + UInt32.ofNat 0 = balancer.index := UInt32.add_zero _
    rw [after, hzero]
  | succ n ih =>
  have hselect := select_of_ne_nil h
  have hnodes : balancer.select.2.nodes ≠ [] := by
    rw [hselect]
    exact h
  rw [after, ih hnodes, hselect, UInt32.add_assoc, UInt32.ofNat_add, UInt32.add_comm (UInt32.ofNat n)]
  rfl

theorem positions_eq (n : Nat) :
    balancer.positions n =
      (List.range n).map fun j =>
        (balancer.index.toNat + j) % 2 ^ 32 % balancer.nodes.length := by
  induction n generalizing balancer with
  | zero => rfl
  | succ n ih =>
  have hselect := select_of_ne_nil h
  have hnodes : balancer.select.2.nodes = balancer.nodes := by rw [hselect]
  have hindex : balancer.select.2.index = balancer.index + 1 := by rw [hselect]
  have hlt := balancer.index.toNat_lt
  rw [positions, ih (by rwa [hnodes]), hnodes, hindex, List.range_succ_eq_map, List.map_cons,
    List.map_map, position, Nat.add_zero, Nat.mod_eq_of_lt hlt]
  refine congrArg _ (List.map_congr_left fun j _ => ?_)
  rw [UInt32.toNat_add, Nat.mod_add_mod, Function.comp_apply, Nat.succ_eq_add_one,
    Nat.add_assoc, Nat.add_comm j]
  rfl

end

/-- Calls as many as there are nodes, after any number of calls, return the nodes at positions each of
which occurs once, if and only if the number of nodes divides `2 ^ 32` or the index does not wrap. -/
theorem fair_iff (nodes : List T) (hnodes : nodes ≠ []) (earlier : Nat) :
    let balancer : RoundRobinLoadBalancer T := after ⟨nodes, 0⟩ earlier
    balancer.selects nodes.length =
        (balancer.positions nodes.length).map (nodes[·]?) ∧
      ((balancer.positions nodes.length).Perm (List.range nodes.length) ↔
        nodes.length ∣ 2 ^ 32 ∨ earlier % 2 ^ 32 + nodes.length ≤ 2 ^ 32) := by
  intro balancer
  have hafter : balancer = ⟨nodes, 0 + UInt32.ofNat earlier⟩ := after_eq hnodes earlier
  have hindex : balancer.index.toNat = earlier % 2 ^ 32 := by
    rw [hafter, UInt32.zero_add]
    exact UInt32.toNat_ofNat' ..
  have hkept : balancer.nodes = nodes := by rw [hafter]
  have hne : balancer.nodes ≠ [] := by rwa [hkept]
  refine ⟨?_, ?_⟩
  · rw [selects_eq hne, hkept]
  rw [positions_eq hne, hindex, hkept]
  exact perm_residues_iff (List.length_pos_iff.2 hnodes) (Nat.mod_lt _ (by decide))

/-- Three nodes, from the start. -/
theorem fair_iff_three :
    ((after ⟨["a", "b", "c"], 0⟩ 0).positions 3).Perm (List.range 3) :=
  (fair_iff ["a", "b", "c"] (by decide) 0).2.2 (by decide)

/-- Three nodes where the index wraps: the first is returned twice and the last is not. -/
theorem not_fair_wrap :
    ¬ ∀ (nodes : List String), nodes ≠ [] → ∀ earlier,
      ((after ⟨nodes, 0⟩ earlier).positions nodes.length).Perm (List.range nodes.length) := by
  intro h
  have hfair := (fair_iff ["a", "b", "c"] (by decide) (2 ^ 32 - 1)).2.1
    (h ["a", "b", "c"] (by decide) (2 ^ 32 - 1))
  exact absurd hfair (by decide)

end Galay.Utils.RoundRobinLoadBalancer
