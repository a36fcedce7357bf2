import Galay.Lib.SmoothRoundRobin
import Galay.Utils.Balancer

/-!
# Smooth weighted round robin is exact

The nodes of a balancer hold the weights and the credits of a smooth round robin, and a call of
`select` is a round of it, for as long as no raised weight overflows. The harmonic bound says for
which weights none ever does.
-/

namespace Galay.Utils.WeightRoundRobinLoadBalancer

open List
open Lib.SmoothRoundRobin

variable {T : Type*} {n : Nat} {names : Fin n → T} {weight credit : Fin n → ℤ}
  {balancer balancer' : WeightRoundRobinLoadBalancer T} {nodes : List (WeightedNode T)}

/-! ## The loops of a call -/

theorem toInt32_eq (hmin : -2 ^ 31 ≤ value) (hmax : value < 2 ^ 31) :
    toInt32 value = value := Int.bmod_eq_of_le (by omega) (by omega)

variable (nodes)

theorem raiseAll_fst (position : Nat) (maxWeight : Int) (selected : Option Nat) :
    (raiseAll nodes position maxWeight selected).1 = nodes.map WeightedNode.raise := by
  induction nodes generalizing position maxWeight selected with
  | nil => rfl
  | cons node nodes ih =>
  rw [raiseAll, map_cons]
  dsimp only
  split
  · rw [ih]
  rw [ih]

/-- The selected node is the one from before the loop, which none exceeds, or the greatest. -/
theorem raiseAll_snd (position : Nat) (maxWeight : Int) (selected : Option Nat) :
    ((raiseAll nodes position maxWeight selected).2 = selected ∧
      ∀ node ∈ nodes, node.raise.currentWeight ≤ maxWeight) ∨
    ∃ k node, nodes[k]? = some node ∧
      (raiseAll nodes position maxWeight selected).2 = some (position + k) ∧
      maxWeight < node.raise.currentWeight ∧
      ∀ other ∈ nodes, other.raise.currentWeight ≤ node.raise.currentWeight := by
  induction nodes generalizing position maxWeight selected with
  | nil => exact .inl ⟨rfl, nofun⟩
  | cons node nodes ih =>
  rw [raiseAll]
  dsimp only
  split
  · next hlt =>
    obtain ⟨hsame, hle⟩ | ⟨k, greatest, hk, hpick, hgreater, hle⟩ :=
      ih (position + 1) node.raise.currentWeight (some position)
    · refine .inr ⟨0, node, rfl, hsame, hlt, fun other hmem => ?_⟩
      rcases List.mem_cons.1 hmem with rfl | hmem
      · exact Int.le_refl _
      exact hle other hmem
    refine .inr ⟨k + 1, greatest, hk, ?_, Int.lt_trans hlt hgreater, fun other hmem => ?_⟩
    · rw [hpick, Nat.add_assoc, Nat.add_comm 1]
    rcases List.mem_cons.1 hmem with rfl | hmem
    · exact Int.le_of_lt hgreater
    exact hle other hmem
  next hge =>
  have hnode : node.raise.currentWeight ≤ maxWeight := Int.not_lt.1 hge
  obtain ⟨hsame, hle⟩ | ⟨k, greatest, hk, hpick, hgreater, hle⟩ :=
    ih (position + 1) maxWeight selected
  · refine .inl ⟨hsame, fun other hmem => ?_⟩
    rcases List.mem_cons.1 hmem with rfl | hmem
    · exact hnode
    exact hle other hmem
  refine .inr ⟨k + 1, greatest, hk, ?_, hgreater, fun other hmem => ?_⟩
  · rw [hpick, Nat.add_assoc, Nat.add_comm 1]
  rcases List.mem_cons.1 hmem with rfl | hmem
  · exact Int.le_trans hnode (Int.le_of_lt hgreater)
  exact hle other hmem

variable {nodes}

theorem totalWeight_eq (hsum : (nodes.map (·.fixedWeight.toNat)).sum < 2 ^ 31) :
    totalWeight nodes = (nodes.map (·.fixedWeight.toNat)).sum := by
  have hfrom : ∀ total : Nat, total + (nodes.map (·.fixedWeight.toNat)).sum < 2 ^ 31 →
      nodes.foldl (fun total node => toInt32 (total + node.fixedWeight.toNat)) (total : Int) =
        (total + (nodes.map (·.fixedWeight.toNat)).sum : Nat) := by
    clear hsum
    induction nodes with
    | nil => exact fun total _ => rfl
    | cons node nodes ih =>
    intro total hlt
    rw [map_cons, sum_cons] at hlt ⊢
    rw [foldl_cons, toInt32_eq (by omega) (by omega), ← Nat.add_assoc]
    exact ih (total + node.fixedWeight.toNat) (by omega)
  have htotal := hfrom 0 (by omega)
  rwa [Nat.zero_add] at htotal

/-! ## A call as a round -/

/-- The nodes of a balancer hold names, weights and credits, position by position. -/
structure Represents (balancer : WeightRoundRobinLoadBalancer T) (names : Fin n → T)
    (weight credit : Fin n → ℤ) : Prop where
  length_eq : balancer.nodes.length = n
  node (i : Fin n) : ∃ node, balancer.nodes[i.val]? = some node ∧ node.node = names i ∧
    (node.fixedWeight.toNat : ℤ) = weight i ∧ node.currentWeight = credit i

section

variable (h : Represents balancer names weight credit)
include h

theorem Represents.mem {node : WeightedNode T} (hmem : node ∈ balancer.nodes) :
    ∃ i : Fin n, (node.fixedWeight.toNat : ℤ) = weight i ∧ node.currentWeight = credit i := by
  obtain ⟨k, hk, hnode⟩ := List.mem_iff_getElem.1 hmem
  obtain ⟨other, hother, _, hweight, hcredit⟩ := h.node ⟨k, by rwa [h.length_eq] at hk⟩
  rw [getElem?_eq_getElem hk, hnode] at hother
  cases hother
  exact ⟨_, hweight, hcredit⟩

theorem Represents.weight_nonneg (i : Fin n) :
    0 ≤ weight i := by
  obtain ⟨node, _, _, hweight, _⟩ := h.node i
  rw [← hweight]
  exact Int.natCast_nonneg _

theorem Represents.sum_eq :
    (((balancer.nodes.map (·.fixedWeight.toNat)).sum : Nat) : ℤ) = total weight := by
  have hweights : balancer.nodes.map (fun node => (node.fixedWeight.toNat : ℤ)) =
      List.ofFn weight := by
    refine ext_getElem ?_ fun i hi hi' => ?_
    · rw [length_map, length_ofFn, h.length_eq]
    rw [length_ofFn] at hi'
    rw [length_map] at hi
    obtain ⟨node, hnode, _, hweight, _⟩ := h.node ⟨i, hi'⟩
    rw [getElem?_eq_getElem hi] at hnode
    cases hnode
    rw [getElem_map, List.getElem_ofFn, hweight]
  rw [total, ← sum_ofFn, ← hweights, Nat.cast_list_sum, map_map]
  rfl

end

/-- Raising the nodes overflows nowhere. -/
def Fits (balancer : WeightRoundRobinLoadBalancer T) : Prop :=
  ∀ node ∈ balancer.nodes, node.currentWeight + node.fixedWeight.toNat < 2 ^ 31

instance : Decidable balancer.Fits :=
  inferInstanceAs (Decidable (∀ node ∈ balancer.nodes,
    node.currentWeight + node.fixedWeight.toNat < 2 ^ 31))

/-- What a call computes is what the integers have, and the weights keep to their bounds. -/
structure Bounded (total bound : ℚ) (balancer : WeightRoundRobinLoadBalancer T) : Prop where
  stored : ∀ node ∈ balancer.nodes, -total < node.currentWeight ∧ node.currentWeight ≤ bound
  raised : ∀ node ∈ balancer.nodes,
    node.raise.currentWeight = node.currentWeight + node.fixedWeight.toNat ∧
      -total < node.raise.currentWeight ∧ node.raise.currentWeight ≤ bound
  summed : (totalWeight (balancer.nodes.map WeightedNode.raise) : ℚ) = total
  paid : ∀ position node, balancer.position = some position →
    balancer.nodes[position]? = some node →
    ((node.raise.lower (totalWeight (balancer.nodes.map WeightedNode.raise))).currentWeight : ℚ) =
      node.raise.currentWeight - total

theorem Represents.raised_lt (h : Represents balancer names weight credit) (hfits : balancer.Fits)
    (i : Fin n) : credit i + weight i < 2 ^ 31 := by
  obtain ⟨node, hnode, _, hweight, hcredit⟩ := h.node i
  rw [← hweight, ← hcredit]
  exact hfits node (mem_of_getElem? hnode)

/-- Weights whose harmonic bound is below `2 ^ 31` never overflow. -/
theorem Represents.fits (h : Represents balancer names weight credit) (hfair : Fair weight credit)
    (hbound : (total weight : ℚ) * harmonic n < 2 ^ 31) : balancer.Fits := by
  intro node hmem
  obtain ⟨i, hweight, hcredit⟩ := h.mem hmem
  have hle := hfair.raised_le h.weight_nonneg i
  rw [Fintype.card_fin] at hle
  rw [hweight, hcredit]
  exact_mod_cast lt_of_le_of_lt hle hbound

section Round

variable (h : Represents balancer names weight credit) (hfair : Fair weight credit)
  (hpos : 0 < total weight) (hsmall : total weight < 2 ^ 31) (hfits : balancer.Fits)
include h hsmall

theorem Represents.summed :
    totalWeight (balancer.nodes.map WeightedNode.raise) = total weight := by
  have hsame : (balancer.nodes.map WeightedNode.raise).map (·.fixedWeight.toNat) =
      balancer.nodes.map (·.fixedWeight.toNat) := by
    rw [map_map]
    rfl
  have hsum := h.sum_eq
  rw [totalWeight_eq (by rw [hsame]; omega), hsame, hsum]

include hfair hfits

/-- A raised weight is what it would be without the machine's bounds. -/
theorem Represents.raise_eq {node : WeightedNode T}
    (hweight : (node.fixedWeight.toNat : ℤ) = weight i) (hcredit : node.currentWeight = credit i) :
    node.raise.currentWeight = credit i + weight i := by
  have hlower := hfair.lower i
  have hnonneg := h.weight_nonneg i
  have hupper := h.raised_lt hfits i
  rw [WeightedNode.raise, hweight, hcredit]
  exact toInt32_eq (by omega) hupper

include hpos

/-- The position that a call selects is one of those whose raised weight is greatest. -/
theorem Represents.position_eq : ∃ i : Fin n, balancer.position = some i.val ∧
    ∀ j, credit j + weight j ≤ credit i + weight i := by
  have hraised : ∀ node ∈ balancer.nodes, -2 ^ 31 < node.raise.currentWeight := by
    intro node hmem
    obtain ⟨j, hweight, hcredit⟩ := h.mem hmem
    have hlower := hfair.lower j
    have hnonneg := h.weight_nonneg j
    rw [h.raise_eq hfair hsmall hfits hweight hcredit]
    omega
  obtain ⟨_, hle⟩ | ⟨k, node, hk, hpick, _, hle⟩ :=
    raiseAll_snd balancer.nodes 0 (-2 ^ 31) none
  · -- None is selected only if there is none.
    have hempty : balancer.nodes = [] := List.eq_nil_iff_forall_not_mem.2 fun node hmem =>
      absurd (hle node hmem) (not_le.2 (hraised node hmem))
    have hzero : n = 0 := by rw [← h.length_eq, hempty, length_nil]
    subst hzero
    rw [total, Finset.univ_eq_empty, Finset.sum_empty] at hpos
    exact absurd hpos (by decide)
  rw [Nat.zero_add] at hpick
  have hlt : k < n := by
    rw [← h.length_eq]
    exact (List.getElem?_eq_some_iff.1 hk).1
  obtain ⟨same, hsame, _, hweight, hcredit⟩ := h.node ⟨k, hlt⟩
  cases hk.symm.trans hsame
  refine ⟨⟨k, hlt⟩, hpick, fun j => ?_⟩
  obtain ⟨other, hother, _, hweight', hcredit'⟩ := h.node j
  rw [← h.raise_eq hfair hsmall hfits hweight hcredit,
    ← h.raise_eq hfair hsmall hfits hweight' hcredit']
  exact hle other (mem_of_getElem? hother)

/-- A call is a round, and nothing overflows in it. -/
theorem Represents.select : ∃ i credit', Round weight credit i credit' ∧
    balancer.position = some i.val ∧ balancer.select.1 = some (names i) ∧
    Represents balancer.select.2 names weight credit' ∧
    balancer.Bounded (total weight) (total weight * harmonic n) := by
  obtain ⟨i, hposition, hgreatest⟩ := h.position_eq hfair hpos hsmall hfits
  obtain ⟨node, hnode, hname, hweight, hcredit⟩ := h.node i
  have hsummed := h.summed hsmall
  have hraise := h.raise_eq hfair hsmall hfits hweight hcredit
  let credit' : Fin n → ℤ := fun j => credit j + weight j - if j = i then total weight else 0
  have hround : Round weight credit i credit' := by
    refine ⟨hgreatest, ?_, fun j hne => ?_⟩
    · show credit i + weight i - (if i = i then total weight else 0) = _
      rw [if_pos rfl]
    show credit j + weight j - (if j = i then total weight else 0) = _
    rw [if_neg hne, sub_zero]
  have hpaid : (node.raise.lower (total weight)).currentWeight =
      node.raise.currentWeight - total weight := by
    have hraised := hround.raised_pos hpos hfair
    have hlt := h.raised_lt hfits i
    rw [WeightedNode.lower, hraise]
    exact toInt32_eq (by omega) (by omega)
  have hselect : balancer.select = (some (names i),
      ⟨(balancer.nodes.map WeightedNode.raise).modify i.val fun node =>
        node.lower (totalWeight (balancer.nodes.map WeightedNode.raise))⟩) := by
    have hne : balancer.nodes ≠ [] := by
      intro hempty
      rw [hempty] at hnode
      cases hnode
    have hpair : raiseAll balancer.nodes 0 (-2 ^ 31) none =
        (balancer.nodes.map WeightedNode.raise, some i.val) :=
      Prod.ext (raiseAll_fst ..) hposition
    rw [WeightRoundRobinLoadBalancer.select, if_neg hne, hpair]
    dsimp only
    rw [getElem?_map, hnode, Option.map_some, Option.map_some, ← hname]
    rfl
  refine ⟨i, credit', hround, hposition, by rw [hselect], ?_, ?_⟩
  · rw [hselect, hsummed]
    refine ⟨by rw [length_modify, length_map, h.length_eq], fun j => ?_⟩
    obtain ⟨other, hother, hname', hweight', hcredit'⟩ := h.node j
    have hraised : (balancer.nodes.map WeightedNode.raise)[j.val]? = some other.raise := by
      rw [getElem?_map, hother]
      rfl
    dsimp only
    rw [getElem?_modify, hraised]
    rcases eq_or_ne j i with rfl | hne
    · cases hother.symm.trans hnode
      refine ⟨node.raise.lower (total weight), by simp, hname', hweight', ?_⟩
      rw [hpaid, hraise, ← hround.paid]
    have hval : i.val ≠ j.val := fun heq => hne (Fin.ext heq).symm
    refine ⟨other.raise, by simp [hval], hname', hweight', ?_⟩
    rw [h.raise_eq hfair hsmall hfits hweight' hcredit', ← hround.kept j hne]
  have hbounds : ∀ j, -((total weight : ℤ) : ℚ) < ((credit j : ℤ) : ℚ) ∧
      ((credit j + weight j : ℤ) : ℚ) ≤ total weight * harmonic n := by
    intro j
    have hupper := hfair.raised_le h.weight_nonneg j
    rw [Fintype.card_fin] at hupper
    exact ⟨by exact_mod_cast hfair.lower j, hupper⟩
  have hgrow : ∀ j, ((credit j : ℤ) : ℚ) ≤ ((credit j + weight j : ℤ) : ℚ) := fun j => by
    exact_mod_cast le_add_of_nonneg_right (h.weight_nonneg j)
  refine ⟨fun other hmem => ?_, fun other hmem => ?_, by rw [hsummed], fun k other hk hother => ?_⟩
  · obtain ⟨j, _, hcredit'⟩ := h.mem hmem
    rw [hcredit']
    exact ⟨(hbounds j).1, le_trans (hgrow j) (hbounds j).2⟩
  · obtain ⟨j, hweight', hcredit'⟩ := h.mem hmem
    rw [h.raise_eq hfair hsmall hfits hweight' hcredit', hcredit', hweight']
    exact ⟨rfl, lt_of_lt_of_le (hbounds j).1 (hgrow j), (hbounds j).2⟩
  cases hposition.symm.trans hk
  cases hnode.symm.trans hother
  rw [hsummed, hpaid, Int.cast_sub]

end Round

/-! ## Runs -/

/-- The balancer after `m` calls. -/
def after (balancer : WeightRoundRobinLoadBalancer T) : Nat → WeightRoundRobinLoadBalancer T
  | 0 => balancer
  | m + 1 => after balancer.select.2 m

/-- The positions of the nodes that `m` calls return. -/
def positions (balancer : WeightRoundRobinLoadBalancer T) : Nat → List (Option Nat)
  | 0 => []
  | m + 1 => balancer.position :: positions balancer.select.2 m

theorem after_add (balancer : WeightRoundRobinLoadBalancer T) (m k : Nat) :
    balancer.after (m + k) = (balancer.after m).after k := by
  induction m generalizing balancer with
  | zero => rw [Nat.zero_add, after]
  | succ m ih => rw [Nat.add_right_comm, after, ih, after]

theorem Represents.unique (h : Represents balancer names weight credit)
    (h' : Represents balancer' names weight credit) : balancer' = balancer := by
  obtain ⟨nodes⟩ := balancer
  obtain ⟨nodes'⟩ := balancer'
  have hlen : nodes'.length = nodes.length := h'.length_eq.trans h.length_eq.symm
  refine congrArg _ (ext_getElem hlen fun k hk' hk => ?_)
  have hn : k < n := by rwa [← h.length_eq]
  obtain ⟨node, hnode, hname, hweight, hcredit⟩ := h.node ⟨k, hn⟩
  obtain ⟨node', hnode', hname', hweight', hcredit'⟩ := h'.node ⟨k, hn⟩
  rw [getElem?_eq_getElem hk] at hnode
  rw [getElem?_eq_getElem hk'] at hnode'
  cases hnode
  cases hnode'
  have hfixed : nodes'[k].fixedWeight = nodes[k].fixedWeight :=
    UInt32.toNat_inj.1 (by exact_mod_cast hweight'.trans hweight.symm)
  rw [WeightedNode.mk.injEq]
  exact ⟨hname'.trans hname.symm, hcredit'.trans hcredit.symm, hfixed⟩

section Run

variable (h : Represents balancer names weight credit) (hfair : Fair weight credit)
  (hpos : 0 < total weight) (hsmall : total weight < 2 ^ 31)
include h hfair hpos hsmall

/-- Calls that overflow nowhere are rounds. -/
theorem Represents.run {m : Nat} (hfits : ∀ k < m, (balancer.after k).Fits) :
    ∃ picks credit', picks.length = m ∧ Rounds weight credit picks credit' ∧
      balancer.positions m = picks.map (fun i => some i.val) ∧
      Represents (balancer.after m) names weight credit' := by
  induction m generalizing balancer credit with
  | zero => exact ⟨[], credit, rfl, .nil, rfl, h⟩
  | succ m ih =>
  obtain ⟨i, credit', hround, hposition, _, hnext, _⟩ :=
    h.select hfair hpos hsmall (hfits 0 (Nat.zero_lt_succ m))
  obtain ⟨picks, credit'', hlen, hrounds, hpositions, hlast⟩ :=
    ih hnext (hfair.round h.weight_nonneg hpos hround) fun k hk =>
      hfits (k + 1) (Nat.succ_lt_succ hk)
  refine ⟨i :: picks, credit'', ?_, .cons hround hrounds, ?_, hlast⟩
  · rw [length_cons, hlen]
  rw [positions, hposition, hpositions, map_cons]

theorem Represents.fits_after (hbound : (total weight : ℚ) * harmonic n < 2 ^ 31) (m : Nat) :
    (balancer.after m).Fits := by
  induction m generalizing balancer credit with
  | zero => exact h.fits hfair hbound
  | succ m ih =>
  obtain ⟨i, credit', hround, _, _, hnext, _⟩ :=
    h.select hfair hpos hsmall (h.fits hfair hbound)
  exact ih hnext (hfair.round h.weight_nonneg hpos hround)

end Run

section Cycle

variable {S : Nat} (h : Represents balancer names weight 0) (hS : total weight = S) (hpos : 0 < S)
  (hsmall : S < 2 ^ 31) (hfits : ∀ k < S, (balancer.after k).Fits)
include h hS hpos hsmall hfits

/-- After as many calls as the sum of the weights the balancer is as it was constructed. -/
theorem Represents.after_total : balancer.after S = balancer := by
  have hpos' : 0 < total weight := by omega
  obtain ⟨picks, credit, hlen, hrounds, _, hlast⟩ :=
    h.run (fair_zero hpos') hpos' (by omega) hfits
  have hzero := hrounds.return_zero h.weight_nonneg hpos' (by rw [hlen, hS])
  rw [hzero] at hlast
  exact h.unique hlast

theorem Represents.after_mul (k : Nat) : balancer.after (k * S) = balancer := by
  induction k with
  | zero => rw [Nat.zero_mul, after]
  | succ k ih => rw [Nat.succ_mul, after_add, ih, h.after_total hS hpos hsmall hfits]

theorem Represents.fits_always (m : Nat) : (balancer.after m).Fits := by
  rw [← Nat.div_add_mod' m S, after_add, h.after_mul hS hpos hsmall hfits]
  exact hfits (m % S) (Nat.mod_lt m hpos)

/-- Calls from construction lead to fair credits. -/
theorem Represents.reach (m : Nat) : ∃ credit, Fair weight credit ∧
    Represents (balancer.after m) names weight credit := by
  have hpos' : 0 < total weight := by omega
  obtain ⟨picks, credit, _, hrounds, _, hlast⟩ :=
    h.run (fair_zero hpos') hpos' (by omega) fun k _ => h.fits_always hS hpos hsmall hfits k
  exact ⟨credit, hrounds.fair h.weight_nonneg hpos' (fair_zero hpos'), hlast⟩

/-- As many calls as the sum of the weights, from anywhere, are shared out by weight. -/
theorem Represents.count_eq (m : Nat) (i : Fin n) :
    (((balancer.after m).positions S).count (some i.val) : ℤ) = weight i := by
  have hpos' : 0 < total weight := by omega
  obtain ⟨credit, hfair, hreached⟩ := h.reach hS hpos hsmall hfits m
  obtain ⟨picks, credit', hlen, hrounds, hpositions, hlast⟩ :=
    hreached.run hfair hpos' (by omega) fun k (_ : k < S) => by
      rw [← after_add]
      exact h.fits_always hS hpos hsmall hfits (m + k)
  -- The calls lead back to where they began.
  rw [← after_add, Nat.add_comm, after_add, h.after_total hS hpos hsmall hfits] at hlast
  have hback : credit' = credit := by
    funext j
    obtain ⟨node, hnode, _, _, hcredit⟩ := hreached.node j
    obtain ⟨node', hnode', _, _, hcredit'⟩ := hlast.node j
    cases hnode.symm.trans hnode'
    rw [← hcredit, ← hcredit']
  rw [hback] at hrounds
  have hinjective : Function.Injective fun i : Fin n => some i.val := fun a b hab =>
    Fin.ext (Option.some.inj hab)
  rw [hpositions, count_map_of_injective _ _ hinjective]
  exact hrounds.count_eq hpos' (by rw [hlen, hS]) i

end Cycle

/-! ## From construction -/

variable {givenNodes : List T} {weights : List UInt32}

theorem represents_ofNodes (h : ofNodes givenNodes weights = some balancer) :
    ∃ names : Fin weights.length → T, (∀ i, givenNodes[i.val]? = some (names i)) ∧
      Represents balancer names (fun i => (weights[i].toNat : ℤ)) 0 := by
  rw [ofNodes] at h
  split at h
  · cases h
  next hlen =>
  have hlen := Decidable.not_not.1 hlen
  cases h
  refine ⟨fun i => givenNodes.get (i.cast hlen.symm), fun i => ?_, ?_, fun i => ?_⟩
  · exact getElem?_eq_getElem _
  · rw [length_zipWith, hlen, Nat.min_self]
  have hi : i.val < givenNodes.length := by
    rw [hlen]
    exact i.isLt
  refine ⟨{ node := givenNodes[i.val], fixedWeight := weights[i.val] }, ?_, rfl, rfl, rfl⟩
  rw [getElem?_zipWith, getElem?_eq_getElem hi, getElem?_eq_getElem i.isLt]

theorem total_weights (weights : List UInt32) :
    total (fun i : Fin weights.length => (weights[i].toNat : ℤ)) =
      ((weights.map UInt32.toNat).sum : Nat) := by
  have hlist : List.ofFn (fun i : Fin weights.length => (weights[i].toNat : ℤ)) =
      weights.map fun weight => (weight.toNat : ℤ) := 
    ofFn_getElem_eq_map weights fun weight => (weight.toNat : ℤ)
  rw [total, ← sum_ofFn, hlist, Nat.cast_list_sum, map_map]
  rfl

/-- With weights of sum `S` below `2 ^ 31`, whose raised weights overflow nowhere in the first `S`
calls, as is the case where `S` times the harmonic number of their number is below `2 ^ 31`: every
call returns a node, each `S` calls in a row return a node as often as its weight says, the weights
are zero again after each `S` calls, and no call overflows or leaves the bounds. -/
theorem select_exact (h : ofNodes givenNodes weights = some balancer)
    (hpos : 0 < (weights.map UInt32.toNat).sum) (hsmall : (weights.map UInt32.toNat).sum < 2 ^ 31) :
    (((weights.map UInt32.toNat).sum : ℚ) * harmonic weights.length < 2 ^ 31 →
      ∀ k, (balancer.after k).Fits) ∧
    ((∀ k < (weights.map UInt32.toNat).sum, (balancer.after k).Fits) →
      (∀ k, ∃ position node, (balancer.after k).position = some position ∧
        givenNodes[position]? = some node ∧ (balancer.after k).select.1 = some node) ∧
      (∀ k i weight, weights[i]? = some weight →
        ((balancer.after k).positions (weights.map UInt32.toNat).sum).count (some i) =
          weight.toNat) ∧
      (∀ k, ∀ node ∈ (balancer.after (k * (weights.map UInt32.toNat).sum)).nodes,
        node.currentWeight = 0) ∧
      ∀ k, (balancer.after k).Bounded (weights.map UInt32.toNat).sum
        ((weights.map UInt32.toNat).sum * harmonic weights.length)) := by
  obtain ⟨names, hnames, hrepresents⟩ := represents_ofNodes h
  have hS := total_weights weights
  have hpos' : 0 < total (fun i : Fin weights.length => (weights[i].toNat : ℤ)) := by omega
  have hsmall' : total (fun i : Fin weights.length => (weights[i].toNat : ℤ)) < 2 ^ 31 := by omega
  have hcast : ((total (fun i : Fin weights.length => (weights[i].toNat : ℤ)) : ℤ) : ℚ) =
      (weights.map UInt32.toNat).sum := by
    rw [hS, Int.cast_natCast]
  generalize hsum : (weights.map UInt32.toNat).sum = S at hS hpos hsmall hcast ⊢
  refine ⟨fun hbound k => ?_, fun hfits => ?_⟩
  · exact hrepresents.fits_after (fair_zero hpos') hpos' hsmall' (by rwa [hcast]) k
  have hcall : ∀ k, ∃ i, (balancer.after k).position = some i.val ∧
      (balancer.after k).select.1 = some (names i) ∧
      (balancer.after k).Bounded S (S * harmonic weights.length) := by
    intro k
    obtain ⟨credit, hfair, hreached⟩ := hrepresents.reach hS hpos hsmall hfits k
    obtain ⟨i, _, _, hposition, hselect, _, hbounded⟩ := hreached.select hfair hpos' hsmall'
      (hrepresents.fits_always hS hpos hsmall hfits k)
    rw [hcast] at hbounded
    exact ⟨i, hposition, hselect, hbounded⟩
  refine ⟨fun k => ?_, fun k i weight hweight => ?_, fun k node hmem => ?_, fun k => ?_⟩
  · obtain ⟨i, hposition, hselect, _⟩ := hcall k
    exact ⟨i.val, names i, hposition, hnames i, hselect⟩
  · obtain ⟨hi, hget⟩ := List.getElem?_eq_some_iff.1 hweight
    have hcount := hrepresents.count_eq hS hpos hsmall hfits k ⟨i, hi⟩
    rw [← hget]
    exact_mod_cast hcount
  · rw [hrepresents.after_mul hS hpos hsmall hfits] at hmem
    obtain ⟨i, _, hzero⟩ := hrepresents.mem hmem
    exact hzero
  obtain ⟨_, _, _, hbounded⟩ := hcall k
  exact hbounded

/-- Weights of sum 9, whose harmonic bound is 16.5. -/
theorem select_exact_three : ∃ node,
    ((⟨[⟨"a", 0, 1⟩, ⟨"b", 0, 1⟩, ⟨"c", 0, 7⟩]⟩ : WeightRoundRobinLoadBalancer String).after
      5).select.1 = some node := by
  have hnodes : ofNodes ["a", "b", "c"] [1, 1, 7] =
      some ⟨[⟨"a", 0, 1⟩, ⟨"b", 0, 1⟩, ⟨"c", 0, 7⟩]⟩ := rfl
  obtain ⟨hfits, hexact⟩ := select_exact hnodes (by decide) (by decide)
  have hsmall : ((([1, 1, 7] : List UInt32).map UInt32.toNat).sum : ℚ) *
      harmonic ([1, 1, 7] : List UInt32).length < 2 ^ 31 := by decide +kernel
  obtain ⟨_, node, _, _, hselect⟩ := (hexact fun k _ => hfits hsmall k).1 5
  exact ⟨node, hselect⟩

/-- Three calls raise the last of these weights, whose sum is `2 ^ 31 - 2`, above `2 ^ 31 - 1`. -/
theorem not_fits_three : ¬ ∀ (givenNodes : List String) (weights : List UInt32)
    (balancer : WeightRoundRobinLoadBalancer String), ofNodes givenNodes weights = some balancer →
    0 < (weights.map UInt32.toNat).sum → (weights.map UInt32.toNat).sum < 2 ^ 31 →
    ∀ k, ∀ node ∈ (balancer.after k).nodes,
      node.raise.currentWeight = node.currentWeight + node.fixedWeight.toNat := by
  intro h
  have hraised := h ["a", "b", "c"] [238609294, 238609294, 1670265058] _ rfl (by decide)
    (by decide) 3
  revert hraised
  decide +kernel

end Galay.Utils.WeightRoundRobinLoadBalancer
