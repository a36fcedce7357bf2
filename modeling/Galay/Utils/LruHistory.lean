import Galay.Utils.LruCache
import Mathlib.Data.List.Perm.Basic

/-!
# The cache and the history of its calls

The history says what was written last under a key, and when a key was used last. `Tracks` ties the
list, the index and the heap of a cache to it, and each part of a call keeps the tie.
-/

namespace Galay.Utils

open Function (update update_of_ne update_self)
open List
open LruCache

variable {K V : Type} [DecidableEq K]

/-! ## The index -/

/-- The index and the list describe the same entries. -/
structure Indexed (cache : LruCache K V) : Prop where
  keys : (cache.items.map (·.key)).Nodup
  addresses : (cache.items.map (·.address)).Nodup
  index : ∀ key address, cache.index.lookup key = some address ↔
    ∃ entry ∈ cache.items, entry.key = key ∧ entry.address = address

variable {cache : LruCache K V} {entry other : LruEntry K V}

section

variable (h : Indexed cache)
include h

section

variable (hmem : entry ∈ cache.items)

include hmem

theorem Indexed.eq_of_key (hother : other ∈ cache.items)
    (hkey : entry.key = other.key) : entry = other :=
  inj_on_of_nodup_map h.keys hmem hother hkey

theorem Indexed.eq_of_address (hother : other ∈ cache.items)
    (haddress : entry.address = other.address) : entry = other :=
  inj_on_of_nodup_map h.addresses hmem hother haddress

theorem Indexed.item :
    cache.item entry.address = some entry := by
  cases hfind : cache.item entry.address with
  | none =>
    have hnone := List.find?_eq_none.1 hfind entry hmem
    exact absurd (decide_eq_true rfl) hnone
  | some found =>
  have hfound := find?_some hfind
  have haddress : found.address = entry.address := of_decide_eq_true hfound
  rw [h.eq_of_address (mem_of_find?_eq_some hfind) hmem haddress]

theorem Indexed.lookup :
    cache.index.lookup entry.key = some entry.address :=
  (h.index _ _).2 ⟨entry, hmem, rfl, rfl⟩

end

theorem Indexed.lookup_eq_none :
    cache.index.lookup key = none ↔ ∀ entry ∈ cache.items, entry.key ≠ key := by
  constructor
  · intro hnone entry hmem hkey
    have hlook := h.lookup hmem
    rw [hkey, hnone] at hlook
    nomatch hlook
  intro habsent
  cases hlook : cache.index.lookup key with
  | none => rfl
  | some address =>
  obtain ⟨entry, hmem, hkey, -⟩ := (h.index key address).1 hlook
  exact absurd hkey (habsent entry hmem)

section

variable (hmem : entry ∈ cache.items)

include hmem

theorem Indexed.split :
    ∃ before after, cache.items = before ++ entry :: after ∧
      (cache.items.filter fun other => other.key ≠ entry.key) = before ++ after := by
  obtain ⟨before, after, hitems⟩ := append_of_mem hmem
  have hkeys := h.keys
  rw [hitems, map_append, map_cons, nodup_middle, nodup_cons, ← map_append] at hkeys
  refine ⟨before, after, hitems, ?_⟩
  have hothers : ∀ other ∈ before ++ after, other.key ≠ entry.key := fun other hother heq =>
    hkeys.1 (heq ▸ mem_map_of_mem hother)
  rw [hitems, filter_append, filter_cons_of_neg (by simp), ← filter_append]
  exact List.filter_eq_self.2 fun other hother => decide_eq_true (hothers other hother)

theorem Indexed.filter_address :
    (cache.items.filter fun other => other.address ≠ entry.address) =
      cache.items.filter fun other => other.key ≠ entry.key := by
  refine filter_congr fun other hother => decide_eq_decide.2 (not_congr ⟨fun heq => ?_, fun heq => ?_⟩)
  · rw [h.eq_of_address hother hmem heq]
  rw [h.eq_of_key hother hmem heq]

/-- The entry is taken out of the list and of the index, and the callback is called with it. -/
theorem Indexed.eraseEntry (reason : EvictReason) :
    cache.eraseEntry entry.key entry.address reason =
      { cache with
        index := cache.index.erase entry.key
        items := cache.items.filter fun other => other.key ≠ entry.key
        evicted := cache.evicted ++ [(entry, reason)] } := by
  simp only [LruCache.eraseEntry, notifyEvict, h.item hmem, h.filter_address hmem]

theorem Indexed.erase (reason : EvictReason) :
    Indexed (cache.eraseEntry entry.key entry.address reason) := by
  rw [h.eraseEntry hmem]
  refine ⟨?_, ?_, fun key address => ?_⟩
  · exact h.keys.sublist (List.filter_sublist.map _)
  · exact h.addresses.sublist (List.filter_sublist.map _)
  by_cases hkey : key = entry.key
  · rw [hkey, AList.lookup_erase]
    refine ⟨nofun, ?_⟩
    rintro ⟨other, hother, hsame, -⟩
    exact absurd hsame (of_decide_eq_true (List.mem_filter.1 hother).2)
  rw [AList.lookup_erase_ne hkey, h.index key address]
  constructor
  · rintro ⟨other, hother, hsame, haddress⟩
    refine ⟨other, List.mem_filter.2 ⟨hother, decide_eq_true ?_⟩, hsame, haddress⟩
    rw [hsame]
    exact hkey
  rintro ⟨other, hother, hsame, haddress⟩
  exact ⟨other, (List.mem_filter.1 hother).1, hsame, haddress⟩

end

end

/-! ## The tie between a cache and its history -/

structure Written (V : Type) where
  value : V
  expiration : Expiration

/-- What is left of the calls so far. -/
structure LruHistory (K V : Type) where
  /-- The last write of a key, until it is removed or evicted for the capacity. -/
  current : K → Option (Written V) := fun _ => none
  lastUse : K → Nat := fun _ => 0
  uses : Nat := 0
  /-- The last reading of the clock. -/
  now : Int := 0

/-- The key has a write that is still current and has not expired. -/
def LruHistory.Visible (history : LruHistory K V) (now : Int) (key : K) (value : V) : Prop :=
  ∃ written, history.current key = some written ∧ written.value = value ∧
    Live now written.expiration.expiresAt

structure Tracks (cache : LruCache K V) (history : LruHistory K V) : Prop where
  indexed : Indexed cache
  /-- An entry that expires has its node in the heap. -/
  heaped : ∀ entry ∈ cache.items, ∀ time, entry.expiresAt = some time →
    { entry with expiresAt := time } ∈ cache.expirations
  current : ∀ entry ∈ cache.items,
    history.current entry.key = some ⟨entry.value, ⟨entry.expiresAt, entry.ttl⟩⟩
  present : ∀ key value, history.Visible history.now key value →
    ∃ entry ∈ cache.items, entry.key = key
  recent : (cache.items.map (·.key)).Pairwise fun key later =>
    history.lastUse later < history.lastUse key
  used : ∀ key, history.lastUse key ≤ history.uses
  /-- An entry that was made is in the list, or the callback was called with it. -/
  accounted : (List.range cache.allocated).Perm
    (cache.items.map (·.address) ++ cache.evicted.map (·.1.address))

variable {history : LruHistory K V}

theorem Live.mono (hle : now ≤ later) (hlive : Live later expiresAt) : Live now expiresAt :=
  fun time heq => Int.lt_of_le_of_lt hle (hlive time heq)

section

variable (h : Tracks cache history)
include h

theorem Tracks.advance (hle : history.now ≤ now) : Tracks cache { history with now } where
  __ := h
  present key value := by
    rintro ⟨written, hcur, hval, hlive⟩
    exact h.present key value ⟨written, hcur, hval, hlive.mono hle⟩

theorem Tracks.visible_iff (hlive : ∀ entry ∈ cache.items, Live history.now entry.expiresAt)
    (key : K) (value : V) :
    history.Visible history.now key value ↔
      ∃ entry ∈ cache.items, entry.key = key ∧ entry.value = value := by
  constructor
  · intro hvisible
    obtain ⟨entry, hmem, rfl⟩ := h.present key value hvisible
    obtain ⟨written, hcur, hval, -⟩ := hvisible
    rw [h.current entry hmem] at hcur
    obtain rfl := Option.some.inj hcur
    exact ⟨entry, hmem, rfl, hval⟩
  rintro ⟨entry, hmem, rfl, rfl⟩
  exact ⟨_, h.current entry hmem, rfl, hlive entry hmem⟩

/-- An entry leaves the cache. What is written under the other keys stays, and under its own key
nothing is visible. -/
theorem Tracks.erase {current : K → Option (Written V)} (hmem : entry ∈ cache.items)
    (reason : EvictReason) (hothers : ∀ key, key ≠ entry.key → current key = history.current key)
    (hgone : ∀ written, current entry.key = some written → ¬ Live history.now written.expiration.expiresAt)
    :
    Tracks (cache.eraseEntry entry.key entry.address reason) { history with current } := by
  have hindexed := h.indexed.erase hmem reason
  rw [h.indexed.eraseEntry hmem] at hindexed ⊢
  have hfilter {other : LruEntry K V}
      (hother : other ∈ cache.items.filter fun other => other.key ≠ entry.key) :
      other ∈ cache.items ∧ other.key ≠ entry.key :=
    ⟨(List.mem_filter.1 hother).1, of_decide_eq_true (List.mem_filter.1 hother).2⟩
  refine ⟨hindexed, ?_, ?_, ?_, ?_, h.used, ?_⟩
  · exact fun other hother => h.heaped other (hfilter hother).1
  · intro other hother
    simp only
    rw [hothers _ (hfilter hother).2]
    exact h.current other (hfilter hother).1
  · rintro key value ⟨written, hcur, hval, hlive⟩
    by_cases hkey : key = entry.key
    · subst hkey
      exact absurd hlive (hgone written hcur)
    have hcur' := (hothers key hkey).symm.trans hcur
    obtain ⟨other, hother, rfl⟩ := h.present key value ⟨written, hcur', hval, hlive⟩
    exact ⟨other, List.mem_filter.2 ⟨hother, decide_eq_true hkey⟩, rfl⟩
  · exact h.recent.sublist (List.filter_sublist.map _)
  obtain ⟨before, after, hitems, hrest⟩ := h.indexed.split hmem
  have haccounted := h.accounted
  simp only
  rw [hrest]
  rw [hitems] at haccounted
  refine haccounted.trans ?_
  simp only [map_append, map_cons, map_nil]
  refine (List.perm_middle.append_right _).trans ((perm_append_singleton _ _).symm.trans ?_)
  exact List.Perm.of_eq (append_assoc _ _ _)

theorem Tracks.eraseExpired (hmem : entry ∈ cache.items)
    (hdead : ¬ Live history.now entry.expiresAt) (reason : EvictReason) :
    Tracks (cache.eraseEntry entry.key entry.address reason) history := by
  refine h.erase hmem reason (fun _ _ => rfl) (fun written hwritten => ?_)
  rw [h.current entry hmem] at hwritten
  rw [← Option.some.inj hwritten]
  exact hdead

theorem Tracks.eraseKey (hmem : entry ∈ cache.items) (reason : EvictReason) :
    Tracks (cache.eraseEntry entry.key entry.address reason)
      { history with current := update history.current entry.key none } := by
  refine h.erase hmem reason (fun key hkey => update_of_ne hkey _ _) (fun written => ?_)
  rw [update_self]
  nofun

theorem Tracks.absent (habsent : ∀ entry ∈ cache.items, entry.key ≠ key)
    (hgone : ∀ w, written = some w → ¬ Live history.now w.expiration.expiresAt) :
    Tracks cache { history with current := update history.current key written } where
  __ := h
  current entry hmem := by
    simp only
    rw [update_of_ne (habsent entry hmem)]
    exact h.current entry hmem
  present k value := by
    rintro ⟨w, hcur, hval, hlive⟩
    simp only at hcur
    by_cases hkey : k = key
    · subst hkey
      rw [update_self] at hcur
      exact absurd hlive (hgone w hcur)
    rw [update_of_ne hkey] at hcur
    exact h.present k value ⟨w, hcur, hval, hlive⟩

end

/-! ## Purging -/

/-- The parts of a cache that only a setter changes. -/
structure SameConfig (cache after : LruCache K V) : Prop where
  capacity : after.capacity = cache.capacity
  defaultTtl : after.defaultTtl = cache.defaultTtl
  expirationPolicy : after.expirationPolicy = cache.expirationPolicy

theorem SameConfig.trans {after : LruCache K V} (h : SameConfig cache middle)
    (h' : SameConfig middle after) : SameConfig cache after :=
  ⟨h'.capacity.trans h.capacity, h'.defaultTtl.trans h.defaultTtl,
    h'.expirationPolicy.trans h.expirationPolicy⟩

/-- What purging makes of a cache: the entries that have expired leave it. -/
structure Purged (now : Int) (cache after : LruCache K V) : Prop where
  config : SameConfig cache after
  items : after.items = cache.items.filter fun entry => Live now entry.expiresAt
  evicted : ∃ left, after.evicted = cache.evicted ++ left ∧ ∀ gone ∈ left, gone.2 = .Expired

theorem Tracks.pop (h : Tracks cache history) (node : ExpireNode K)
    (hstale : ∀ entry ∈ cache.items, ∀ time, entry.expiresAt = some time →
      { entry with expiresAt := time } ≠ node) :
    Tracks { cache with expirations := cache.expirations.erase node } history where
  __ := h
  indexed := { h.indexed with }
  heaped entry hmem time htime :=
    (mem_erase_of_ne (hstale entry hmem time htime)).2 (h.heaped entry hmem time htime)

variable (heap : ExpireTop K)

theorem Tracks.live_of_heap (h : Tracks cache history)
    (hheap : ∀ node ∈ cache.expirations, now < node.expiresAt) :
    ∀ entry ∈ cache.items, Live now entry.expiresAt :=
  fun entry hmem time htime => hheap _ (h.heaped entry hmem time htime)

theorem Purged.of_live (hlive : ∀ entry ∈ cache.items, Live now entry.expiresAt) :
    Purged now cache cache where
  config := ⟨rfl, rfl, rfl⟩
  items := (List.filter_eq_self.2 fun entry hmem => decide_eq_true (hlive entry hmem)).symm
  evicted := ⟨[], (append_nil _).symm, nofun⟩

section

variable (h : Tracks cache history) (hmem : entry ∈ cache.items)
include h hmem

/-- One entry that has expired is taken out before the others. -/
theorem Purged.of_erase {expirations : List (ExpireNode K)} {after : LruCache K V}
    (hdead : ¬ Live now entry.expiresAt)
    (hpurged : Purged now { cache.eraseEntry entry.key entry.address .Expired with expirations } after)
    : Purged now cache after := by
  rw [h.indexed.eraseEntry hmem] at hpurged
  obtain ⟨left, hleft, hexpired⟩ := hpurged.evicted
  refine ⟨{ hpurged.config with }, ?_, (entry, .Expired) :: left, ?_, ?_⟩
  · rw [hpurged.items, filter_filter]
    refine filter_congr fun other hother => ?_
    by_cases hkey : other.key = entry.key
    · rw [h.indexed.eq_of_key hother hmem hkey, decide_eq_false hdead, Bool.false_and]
    rw [decide_eq_true hkey, Bool.and_true]
  · rw [hleft, append_assoc]
    rfl
  intro gone hgone
  rcases List.mem_cons.1 hgone with rfl | hgone
  · rfl
  exact hexpired gone hgone

/-- It does not matter whether the node is taken out before the entry. -/
theorem Tracks.eraseEntry_pop :
    LruCache.eraseEntry { cache with expirations := cache.expirations.erase node } entry.key
        entry.address .Expired = { cache.eraseEntry entry.key entry.address .Expired with
        expirations := cache.expirations.erase node } := by
  have hpopped : Indexed { cache with expirations := cache.expirations.erase node } :=
    { h.indexed with }
  rw [hpopped.eraseEntry hmem, h.indexed.eraseEntry hmem]

theorem Tracks.popErased (hdead : ¬ Live history.now entry.expiresAt)
    (hkey : node.key = entry.key) : Tracks { cache.eraseEntry entry.key entry.address .Expired with
      expirations := cache.expirations.erase node } history := by
  have herased := h.eraseExpired hmem hdead .Expired
  rw [h.indexed.eraseEntry hmem] at herased ⊢
  refine herased.pop node fun other hother time _ heq => ?_
  have hne := of_decide_eq_true (List.mem_filter.1 hother).2
  rw [← heq] at hkey
  exact hne hkey

end

/-- Induction on the iterations. What is taken out has expired, and the node of an entry that has
expired is in the heap until the entry is taken out. -/
theorem Tracks.purgeLoop (fuel : Nat) (h : Tracks cache history)
    (hnow : history.now = now) (hfuel : cache.expirations.length ≤ fuel) :
    Tracks (purgeLoop heap now fuel cache).2 history ∧
      Purged now cache (purgeLoop heap now fuel cache).2 := by
  induction fuel generalizing cache with
  | zero =>
    have hnil := List.length_eq_zero_iff.1 (Nat.le_zero.1 hfuel)
    refine ⟨h, Purged.of_live (h.live_of_heap ?_)⟩
    rw [hnil]
    nofun
  | succ fuel ih =>
  unfold LruCache.purgeLoop
  cases htop : heap.top cache.expirations with
  | none =>
    refine ⟨h, Purged.of_live (h.live_of_heap ?_)⟩
    rw [heap.top_nil _ htop]
    nofun
  | some node =>
  simp only
  by_cases hlate : now < node.expiresAt
  · rw [if_pos hlate]
    exact ⟨h, Purged.of_live (h.live_of_heap fun other hother =>
      Int.lt_of_lt_of_le hlate (heap.top_le _ _ htop other hother))⟩
  rw [if_neg hlate]
  have hlen := length_erase_of_mem (heap.top_mem _ _ htop)
  have hskip (hstale : ∀ entry ∈ cache.items, ∀ time, entry.expiresAt = some time →
      { entry with expiresAt := time } ≠ node) :
      Tracks (LruCache.purgeLoop heap now fuel
        { cache with expirations := cache.expirations.erase node }).2 history ∧
      Purged now cache (LruCache.purgeLoop heap now fuel
        { cache with expirations := cache.expirations.erase node }).2 := by
    obtain ⟨htracks, hpurged⟩ := ih (h.pop node hstale) (by simp only; omega)
    exact ⟨htracks, { hpurged.config with }, hpurged.items, hpurged.evicted⟩
  cases hlook : cache.index.lookup node.key with
  | none =>
    refine hskip fun entry hmem time _ heq => ?_
    have habsent := h.indexed.lookup_eq_none.1 hlook entry hmem
    rw [← heq] at habsent
    exact habsent rfl
  | some address =>
  obtain ⟨entry, hmem, hkey, rfl⟩ := (h.indexed.index _ _).1 hlook
  have hitem : LruCache.item { cache with expirations := cache.expirations.erase node }
      entry.address = some entry := h.indexed.item hmem
  simp only [hitem]
  by_cases hother : entry.version ≠ node.version ∨ entry.expiresAt ≠ some node.expiresAt
  · rw [if_pos hother]
    refine hskip fun other hothers time htime heq => ?_
    have hsame : other = entry := by
      refine h.indexed.eq_of_key hothers hmem ?_
      rw [hkey, ← heq]
    subst hsame
    rw [htime, ← heq] at hother
    rcases hother with hver | htime
    · exact hver rfl
    exact htime rfl
  rw [if_neg hother]
  obtain ⟨hver, htime⟩ := not_or.1 hother
  have htime := not_not.1 htime
  have hdead : ¬ Live history.now entry.expiresAt := by
    intro hlive
    rw [hnow] at hlive
    exact hlate (hlive _ htime)
  rw [← hkey, h.eraseEntry_pop hmem]
  have herased := h.popErased hmem hdead hkey.symm
  obtain ⟨htracks, hpurged⟩ := ih herased (by simp only; omega)
  exact ⟨htracks, Purged.of_erase h hmem (hnow ▸ hdead) hpurged⟩

/-- After purging, the entries are those that have not expired. -/
theorem Tracks.purgeExpired (h : Tracks cache history) (hle : history.now ≤ now) :
    Tracks (cache.purgeExpired heap now).2 { history with now } ∧
      Purged now cache (cache.purgeExpired heap now).2 :=
  (h.advance hle).purgeLoop heap _ rfl (Nat.le_refl _)

theorem Purged.live {after : LruCache K V} (h : Purged now cache after) :
    ∀ entry ∈ after.items, Live now entry.expiresAt := by
  intro entry hmem
  rw [h.items] at hmem
  exact of_decide_eq_true (List.mem_filter.1 hmem).2

end Galay.Utils
