import Mathlib.Data.List.Basic

/-!
# Items dealt to clients

A list of items that is the work of several clients, in any order: each item has an owner, and what
a client's own items have done to it is told by a relation (`Dealt`). Work of one client after
another, and of all clients after all clients, is dealt again.
-/

namespace Galay.Lib

open List

variable {σ F : Type*}

/-- The items of one owner, in their order. -/
def itemsOf (owner : Nat) (tagged : List (Nat × F)) : List F :=
  (tagged.filter fun item => item.1 = owner).map Prod.snd

theorem itemsOf_append (owner : Nat) (tagged tagged' : List (Nat × F)) :
    itemsOf owner (tagged ++ tagged') = itemsOf owner tagged ++ itemsOf owner tagged' := by
  rw [itemsOf, filter_append, map_append]
  rfl

theorem itemsOf_own (owner : Nat) (items : List F) :
    itemsOf owner (items.map fun item => (owner, item)) = items := by
  induction items with
  | nil => rfl
  | cons item items ih =>
  rw [itemsOf, map_cons, filter_cons, if_pos (decide_eq_true rfl), map_cons]
  exact congrArg (item :: ·) ih

theorem itemsOf_eq_nil {tagged : List (Nat × F)}
    (h : ∀ item ∈ tagged, item.1 ≠ owner) : itemsOf owner tagged = [] := by
  rw [itemsOf, map_eq_nil_iff, filter_eq_nil_iff]
  intro item hitem
  rw [decide_eq_true_iff]
  exact h item hitem

/-- The owners of one client more, which stands in front. -/
def later (tagged : List (Nat × F)) : List (Nat × F) :=
  tagged.map fun item => (item.1 + 1, item.2)

theorem itemsOf_zero_later (tagged : List (Nat × F)) : itemsOf 0 (later tagged) = [] := by
  refine itemsOf_eq_nil fun item hitem => ?_
  obtain ⟨_, -, rfl⟩ := List.mem_map.1 hitem
  exact Nat.succ_ne_zero _

theorem itemsOf_succ_later (owner : Nat) (tagged : List (Nat × F)) :
    itemsOf (owner + 1) (later tagged) = itemsOf owner tagged := by
  induction tagged with
  | nil => rfl
  | cons item tagged ih =>
  rw [later] at ih
  rw [later, map_cons, itemsOf, filter_cons, itemsOf, filter_cons]
  by_cases howner : item.1 = owner
  · rw [if_pos (decide_eq_true (congrArg Nat.succ howner)), if_pos (decide_eq_true howner)]
    exact congrArg (item.2 :: ·) ih
  rw [if_neg (by simpa using howner), if_neg (by simpa using howner)]
  exact ih

/-- Every client has become what its items make of it. -/
structure DealtBy (E : σ → List F → σ → Prop) (tagged : List (Nat × F)) (clients clients' : List σ) :
    Prop where
  length_eq : clients'.length = clients.length
  owned : ∀ item ∈ tagged, item.1 < clients.length
  serves : ∀ owner s, clients[owner]? = some s →
    ∃ s', clients'[owner]? = some s' ∧ E s (itemsOf owner tagged) s'

/-- The items are the work of the clients. -/
def Dealt (E : σ → List F → σ → Prop) (clients : List σ) (items : List F) (clients' : List σ) :
    Prop :=
  ∃ tagged : List (Nat × F), tagged.map Prod.snd = items ∧ DealtBy E tagged clients clients'

section Rules

variable {E E' E'' : σ → List F → σ → Prop} {clients clients' clients'' : List σ}
  {items items' : List F}

theorem Dealt.nil : Dealt E [] [] [] :=
  ⟨[], rfl, rfl, nofun, nofun⟩

theorem Dealt.refl (h : ∀ s, E s [] s) (clients : List σ) : Dealt E clients [] clients :=
  ⟨[], rfl, rfl, nofun, fun _ s hs => ⟨s, hs, h s⟩⟩

/-- The work of the first client stands before that of the others. -/
theorem Dealt.cons {s s' : σ} (hfirst : E s items s') (hrest : Dealt E clients items' clients') :
    Dealt E (s :: clients) (items ++ items') (s' :: clients') := by
  obtain ⟨tagged, rfl, hlen, howned, hserves⟩ := hrest
  refine ⟨items.map (fun item => (0, item)) ++ later tagged, ?_, ?_, ?_, ?_⟩
  · rw [map_append, map_map, later, map_map]
    congr 1
    exact map_id items
  · rw [length_cons, length_cons, hlen]
  · intro item hitem
    rcases List.mem_append.1 hitem with hmem | hmem
    · obtain ⟨_, -, rfl⟩ := List.mem_map.1 hmem
      exact Nat.succ_pos _
    obtain ⟨own, hown, rfl⟩ := List.mem_map.1 hmem
    exact Nat.succ_lt_succ (howned own hown)
  intro owner t ht
  rw [itemsOf_append]
  cases owner with
  | zero =>
    cases ht
    rw [itemsOf_own, itemsOf_zero_later, append_nil]
    exact ⟨s', rfl, hfirst⟩
  | succ owner =>
  rw [getElem?_cons_succ] at ht
  have hnone : itemsOf (owner + 1) (items.map fun item => (0, item)) = [] := by
    refine itemsOf_eq_nil fun item hitem => ?_
    obtain ⟨_, -, rfl⟩ := List.mem_map.1 hitem
    exact (Nat.succ_ne_zero owner).symm
  rw [hnone, nil_append, itemsOf_succ_later, getElem?_cons_succ]
  exact hserves owner t ht

/-- Work after work. -/
theorem Dealt.comp (hcomp : ∀ {s s' s'' own own'}, E s own s' → E' s' own' s'' →
    E'' s (own ++ own') s'') (h : Dealt E clients items clients')
    (h' : Dealt E' clients' items' clients'') : Dealt E'' clients (items ++ items') clients'' := by
  obtain ⟨tagged, rfl, hlen, howned, hserves⟩ := h
  obtain ⟨tagged', rfl, hlen', howned', hserves'⟩ := h'
  refine ⟨tagged ++ tagged', map_append, hlen'.trans hlen, ?_, ?_⟩
  · intro item hitem
    rcases List.mem_append.1 hitem with hmem | hmem
    · exact howned item hmem
    rw [← hlen]
    exact howned' item hmem
  intro owner s hs
  obtain ⟨s', hs', hfirst⟩ := hserves owner s hs
  obtain ⟨s'', hs'', hsecond⟩ := hserves' owner s' hs'
  refine ⟨s'', hs'', ?_⟩
  rw [itemsOf_append]
  exact hcomp hfirst hsecond

theorem Dealt.trans (htrans : ∀ {s s' s'' own own'}, E s own s' → E s' own' s'' →
    E s (own ++ own') s'') (h : Dealt E clients items clients')
    (h' : Dealt E clients' items' clients'') : Dealt E clients (items ++ items') clients'' :=
  @Dealt.comp _ _ E E E _ _ _ _ _ htrans h h'

end Rules

end Galay.Lib
