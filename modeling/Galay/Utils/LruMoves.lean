import Galay.Utils.LruHistory

/-!
# What the parts of a call do to the recency list

Entries are written, touched, put in front and taken from the end.
-/

namespace Galay.Utils

open Function (comp_apply update update_of_ne update_self)
open List
open LruCache

variable {K V : Type} [DecidableEq K] {cache : LruCache K V} {history : LruHistory K V}
  {entry : LruEntry K V}

/-! ## The entries at the end -/

/-- The last entries are taken out, the least recent one first. -/
structure Evicted (limit : Nat) (reason : EvictReason) (cache after : LruCache K V) : Prop where
  config : SameConfig cache after
  items : after.items = cache.items.take limit
  evicted : after.evicted =
    cache.evicted ++ (cache.items.drop limit).reverse.map fun entry => (entry, reason)

variable (current : K → Option (Written V))

/-- The keys of some entries are forgotten. -/
def forget (keys : List K) : K → Option (Written V) :=
  fun key => if key ∈ keys then none else current key

theorem forget_nil : forget current [] = current := by
  funext key
  exact if_neg not_mem_nil

theorem forget_append_singleton (keys : List K) (key : K) :
    forget (update current key none) keys = forget current (keys ++ [key]) := by
  funext other
  unfold forget
  by_cases hmem : other ∈ keys
  · rw [if_pos hmem, if_pos (mem_append_left _ hmem)]
  rw [if_neg hmem]
  by_cases hkey : other = key
  · rw [hkey, update_self, if_pos (mem_append_right _ (mem_singleton_self key))]
  rw [update_of_ne hkey, if_neg]
  intro hother
  rcases List.mem_append.1 hother with hother | hother
  · exact hmem hother
  exact hkey (List.mem_singleton.1 hother)

variable {current}

theorem Tracks.evictNone (h : Tracks cache history) (hle : cache.items.length ≤ limit) :
    Tracks cache { history with
          current := forget history.current ((cache.items.drop limit).map (·.key)) } ∧
      Evicted limit reason cache cache := by
  rw [drop_eq_nil_of_le hle, map_nil, forget_nil]
  refine ⟨h, ⟨⟨rfl, rfl, rfl⟩, (take_of_length_le hle).symm, ?_⟩⟩
  rw [drop_eq_nil_of_le hle]
  exact (append_nil _).symm

theorem Indexed.eraseLast (h : Indexed cache)
    (hitems : cache.items = first ++ [last]) (reason : EvictReason) :
    (cache.eraseEntry last.key last.address reason).items = first ∧
      (cache.eraseEntry last.key last.address reason).evicted = cache.evicted ++ [(last, reason)] ∧
      SameConfig cache (cache.eraseEntry last.key last.address reason) := by
  have hmem : last ∈ cache.items := by
    rw [hitems]
    exact mem_append_right _ (mem_singleton_self last)
  have hkeys := h.keys
  rw [hitems, map_append, map_singleton, nodup_append] at hkeys
  rw [h.eraseEntry hmem]
  refine ⟨?_, rfl, rfl, rfl, rfl⟩
  simp only
  rw [hitems, filter_append, filter_cons_of_neg (by simp), filter_nil, append_nil]
  refine List.filter_eq_self.2 fun other hother => decide_eq_true ?_
  exact hkeys.2.2 _ (mem_map_of_mem hother) _ (mem_singleton_self last.key)

/-- Induction on the iterations: the last entry goes, and the rest is the list without it. -/
theorem Tracks.evictLoop (fuel : Nat) (h : Tracks cache history)
    (hfuel : cache.items.length ≤ fuel) : Tracks (evictLoop limit reason fuel cache) { history with
          current := forget history.current ((cache.items.drop limit).map (·.key)) } ∧
      Evicted limit reason cache (evictLoop limit reason fuel cache) := by
  induction fuel generalizing cache history with
  | zero => exact h.evictNone (Nat.le_trans hfuel (Nat.zero_le limit))
  | succ fuel ih =>
  unfold LruCache.evictLoop
  by_cases hlong : limit < cache.items.length
  · rw [if_pos hlong]
    cases hlast : cache.items.getLast? with
    | none =>
      rw [List.getLast?_eq_none_iff.1 hlast] at hlong
      exact absurd hlong (Nat.not_lt_zero _)
    | some last =>
    obtain ⟨first, hitems⟩ := List.getLast?_eq_some_iff.1 hlast
    have hmem : last ∈ cache.items := by
      rw [hitems]
      exact mem_append_right _ (mem_singleton_self last)
    have hlen : cache.items.length = first.length + 1 := by
      rw [hitems, length_append, length_singleton]
    have hle : limit ≤ first.length := by omega
    obtain ⟨hfirst, hevicted, hconfig⟩ := h.indexed.eraseLast hitems reason
    obtain ⟨htracks, hrest⟩ := ih (h.eraseKey hmem reason) (by rw [hfirst]; omega)
    simp only [h.indexed.lookup hmem]
    rw [hfirst, forget_append_singleton] at htracks
    rw [hitems, drop_append_of_le_length hle, map_append, map_singleton]
    refine ⟨htracks, ⟨hconfig.trans hrest.config, ?_, ?_⟩⟩
    · rw [hrest.items, hfirst, hitems, take_append_of_le_length hle]
    rw [hrest.evicted, hevicted, hfirst, hitems, drop_append_of_le_length hle,
      reverse_append, append_assoc]
    rfl
  rw [if_neg hlong]
  exact h.evictNone (Nat.le_of_not_lt hlong)

/-! ## An entry is written -/

/-- The key and the address of an entry, which are what the index is about. -/
def pair (entry : LruEntry K V) : K × Nat := (entry.key, entry.address)

omit [DecidableEq K] in
theorem keys_of_pairs {items items' : List (LruEntry K V)} (h : items.map pair = items'.map pair) :
    items.map (·.key) = items'.map (·.key) := by
  have hkeys := congrArg (List.map Prod.fst) h
  rw [map_map, map_map] at hkeys
  exact hkeys

omit [DecidableEq K] in
theorem addresses_of_pairs {items items' : List (LruEntry K V)}
    (h : items.map pair = items'.map pair) :
    items.map (·.address) = items'.map (·.address) := by
  have haddresses := congrArg (List.map Prod.snd) h
  rw [map_map, map_map] at haddresses
  exact haddresses

/-- The keys and the addresses of a list say what the index has to be. -/
theorem Indexed.congr {items : List (LruEntry K V)} (h : Indexed cache)
    (hpairs : items.map pair = cache.items.map pair) : Indexed { cache with items } := by
  refine ⟨keys_of_pairs hpairs ▸ h.keys, addresses_of_pairs hpairs ▸ h.addresses,
    fun key address => ?_⟩
  have hmem (entries : List (LruEntry K V)) :
      (∃ entry ∈ entries, entry.key = key ∧ entry.address = address) ↔
        (key, address) ∈ entries.map pair := by
    simp [pair, mem_map]
  rw [h.index key address, hmem, hmem, hpairs]

theorem Tracks.modify {written : LruEntry K V} {expirations : List (ExpireNode K)}
    {nextVersion : Nat} (h : Tracks cache history) (hmem : entry ∈ cache.items)
    (hkey : written.key = entry.key) (haddress : written.address = entry.address)
    (hheap : ∀ node ∈ cache.expirations, node ∈ expirations)
    (hnode : ∀ time, written.expiresAt = some time →
      { written with expiresAt := time } ∈ expirations) :
    Tracks
      { cache with
        items := cache.items.map fun other =>
          if other.address = entry.address then written else other
        expirations, nextVersion }
      { history with
        current := update history.current entry.key
          (some ⟨written.value, ⟨written.expiresAt, written.ttl⟩⟩) } := by
  have hpairs : (cache.items.map fun other =>
      if other.address = entry.address then written else other).map pair =
      cache.items.map pair := by
    rw [map_map]
    refine map_congr_left fun other hother => ?_
    simp only [comp_apply, pair]
    split
    · next heq => rw [hkey, haddress, h.indexed.eq_of_address hother hmem heq]
    rfl
  have hkeys := keys_of_pairs hpairs
  have hcases {other : LruEntry K V} (hother : other ∈ cache.items.map fun other =>
      if other.address = entry.address then written else other) :
      other = written ∨ other ∈ cache.items ∧ other.key ≠ entry.key := by
    obtain ⟨old, hold, rfl⟩ := List.mem_map.1 hother
    split
    · exact .inl rfl
    next hne =>
    refine .inr ⟨hold, fun hsame => hne ?_⟩
    rw [h.indexed.eq_of_key hold hmem hsame]
  have hindexed := h.indexed.congr hpairs
  refine ⟨{ hindexed with }, ?_, ?_, ?_, ?_, h.used, ?_⟩
  · intro other hother time htime
    rcases hcases hother with rfl | ⟨hold, -⟩
    · exact hnode time htime
    exact hheap _ (h.heaped other hold time htime)
  · intro other hother
    simp only
    rcases hcases hother with rfl | ⟨hold, hne⟩
    · rw [hkey, update_self]
    rw [update_of_ne hne]
    exact h.current other hold
  · rintro key value ⟨w, hcur, hval, hlive⟩
    simp only at hcur
    have hpresent : key ∈ cache.items.map (·.key) := by
      by_cases hsame : key = entry.key
      · rw [hsame]
        exact mem_map_of_mem hmem
      rw [update_of_ne hsame] at hcur
      obtain ⟨other, hother, rfl⟩ := h.present key value ⟨w, hcur, hval, hlive⟩
      exact mem_map_of_mem hother
    rw [← hkeys] at hpresent
    exact List.mem_map.1 hpresent
  · exact hkeys ▸ h.recent
  simp only
  rw [addresses_of_pairs hpairs]
  exact h.accounted

/-- The configuration, the record of the evictions and the pairs of the list stay. -/
structure Rewritten (cache after : LruCache K V) : Prop where
  config : SameConfig cache after
  evicted : after.evicted = cache.evicted
  pairs : after.items.map pair = cache.items.map pair

theorem Rewritten.mem {after : LruCache K V} (h : Rewritten cache after)
    (hmem : entry ∈ cache.items) :
    ∃ written ∈ after.items, written.key = entry.key ∧ written.address = entry.address := by
  have hpair : pair entry ∈ after.items.map pair := by
    rw [h.pairs]
    exact mem_map_of_mem hmem
  obtain ⟨written, hwritten, heq⟩ := List.mem_map.1 hpair
  exact ⟨written, hwritten, congrArg Prod.fst heq, congrArg Prod.snd heq⟩

theorem Indexed.modifyItem (h : Indexed cache) (hmem : entry ∈ cache.items)
    (f : LruEntry K V → LruEntry K V) :
    cache.modifyItem entry.address f =
      { cache with
        items := cache.items.map fun other =>
          if other.address = entry.address then f entry else other } := by
  unfold LruCache.modifyItem
  congr 1
  refine map_congr_left fun other hother => ?_
  split
  · next heq => rw [h.eq_of_address hother hmem heq]
  rfl

theorem Indexed.rewritten {written : LruEntry K V} {expirations : List (ExpireNode K)}
    {nextVersion : Nat} (h : Indexed cache) (hmem : entry ∈ cache.items)
    (hpair : pair written = pair entry) :
    Rewritten cache
      { cache with
        items := cache.items.map fun other =>
          if other.address = entry.address then written else other
        expirations, nextVersion } := by
  refine ⟨⟨rfl, rfl, rfl⟩, rfl, ?_⟩
  simp only
  rw [map_map]
  refine map_congr_left fun other hother => ?_
  simp only [comp_apply]
  split
  · next heq => rw [hpair, h.eq_of_address hother hmem heq]
  rfl

theorem Tracks.setValue (h : Tracks cache history) (hmem : entry ∈ cache.items) (value : V) :
    Tracks (cache.modifyItem entry.address fun entry => { entry with value })
        { history with
          current := update history.current entry.key
            (some ⟨value, ⟨entry.expiresAt, entry.ttl⟩⟩) } ∧
      Rewritten cache (cache.modifyItem entry.address fun entry => { entry with value }) := by
  rw [h.indexed.modifyItem hmem]
  refine ⟨?_, h.indexed.rewritten hmem rfl⟩
  exact h.modify hmem rfl rfl (fun _ hnode => hnode)
    (h.heaped entry hmem)

/-- The entry with another expiration, and its node in the heap. -/
theorem Indexed.updateExpiration (h : Indexed cache) (hmem : entry ∈ cache.items)
    (expiration : Expiration) :
    ∃ version, cache.updateExpiration entry.address expiration =
      { cache with
        items := cache.items.map fun other =>
          if other.address = entry.address then
            { entry with expiresAt := expiration.expiresAt, ttl := expiration.ttl, version }
          else other
        expirations := match expiration.expiresAt with
          | some time => ⟨time, entry.key, version⟩ :: cache.expirations
          | none => cache.expirations
        nextVersion := version } := by
  refine ⟨(cache.nextVersion + 1) % 2 ^ 64, ?_⟩
  have hnext : Indexed { cache with nextVersion := (cache.nextVersion + 1) % 2 ^ 64 } :=
    { h with }
  simp only [LruCache.updateExpiration, takeVersion]
  rw [hnext.modifyItem hmem]
  cases htime : expiration.expiresAt with
  | none => rfl
  | some time =>
  have hrewritten : Rewritten { cache with nextVersion := (cache.nextVersion + 1) % 2 ^ 64 }
      { cache with
        items := cache.items.map fun other =>
          if other.address = entry.address then
            { entry with
              expiresAt := some time
              ttl := expiration.ttl
              version := (cache.nextVersion + 1) % 2 ^ 64 }
          else other
        nextVersion := (cache.nextVersion + 1) % 2 ^ 64 } := hnext.rewritten hmem rfl
  have hwritten := (hnext.congr hrewritten.pairs).item (List.mem_map.2 ⟨entry, hmem, if_pos rfl⟩)
  simp only at hwritten ⊢
  rw [hwritten]

theorem Tracks.updateExpiration (h : Tracks cache history) (hmem : entry ∈ cache.items)
    (expiration : Expiration) :
    Tracks (cache.updateExpiration entry.address expiration)
        { history with
          current := update history.current entry.key (some ⟨entry.value, expiration⟩) } ∧
      Rewritten cache (cache.updateExpiration entry.address expiration) := by
  obtain ⟨version, heq⟩ := h.indexed.updateExpiration hmem expiration
  rw [heq]
  refine ⟨?_, h.indexed.rewritten hmem rfl⟩
  refine h.modify hmem rfl rfl (fun node hnode => ?_) (fun time htime => ?_)
  · split
    · exact mem_cons_of_mem _ hnode
    exact hnode
  simp only at htime
  rw [htime]
  exact mem_cons_self

/-! ## An entry is used -/

def LruHistory.use (history : LruHistory K V) (key : K) : LruHistory K V :=
  { history with
    lastUse := Function.update history.lastUse key (history.uses + 1)
    uses := history.uses + 1 }

theorem LruHistory.use_used (hused : ∀ key, history.lastUse key ≤ history.uses) (key other : K) :
    (history.use key).lastUse other ≤ (history.use key).uses := by
  simp only [LruHistory.use]
  by_cases hkey : other = key
  · rw [hkey, update_self]
  rw [update_of_ne hkey]
  exact Nat.le_succ_of_le (hused other)

/-- The key that was used last comes first. -/
theorem LruHistory.recent_cons {keys : List K}
    (hused : ∀ key, history.lastUse key ≤ history.uses) (hkey : key ∉ keys)
    (hrecent : keys.Pairwise fun key later => history.lastUse later < history.lastUse key) :
    (key :: keys).Pairwise fun key' later =>
      (history.use key).lastUse later < (history.use key).lastUse key' := by
  simp only [LruHistory.use]
  have hne {other : K} (hmem : other ∈ keys) : other ≠ key := by
    rintro rfl
    exact hkey hmem
  refine List.pairwise_cons.2 ⟨fun later hlater => ?_, hrecent.imp_of_mem fun hmem hmem' hlt => ?_⟩
  · rw [update_self, update_of_ne (hne hlater)]
    exact Nat.lt_succ_of_le (hused later)
  rw [update_of_ne (hne hmem), update_of_ne (hne hmem')]
  exact hlt

/-- The list in another order. -/
structure Reordered (cache after : LruCache K V) : Prop where
  config : SameConfig cache after
  evicted : after.evicted = cache.evicted
  length : after.items.length = cache.items.length

theorem Rewritten.reordered {after : LruCache K V} (h : Rewritten cache after) :
    Reordered cache after := by
  refine ⟨h.config, h.evicted, ?_⟩
  have hlen := congrArg List.length h.pairs
  rw [length_map, length_map] at hlen
  exact hlen

theorem Reordered.trans {after : LruCache K V} (h : Reordered cache middle)
    (h' : Reordered middle after) : Reordered cache after :=
  ⟨h.config.trans h'.config, h'.evicted.trans h.evicted, h'.length.trans h.length⟩

theorem Indexed.touch (h : Indexed cache) (hmem : entry ∈ cache.items) :
    Reordered cache (cache.touch entry.address) := by
  simp only [LruCache.touch, h.item hmem, h.filter_address hmem]
  obtain ⟨before, after, hitems, hrest⟩ := h.split hmem
  refine ⟨⟨rfl, rfl, rfl⟩, rfl, ?_⟩
  simp only
  rw [hrest, hitems]
  exact List.perm_middle.symm.length_eq

theorem Tracks.touch (h : Tracks cache history) (hmem : entry ∈ cache.items) :
    Tracks (cache.touch entry.address) (history.use entry.key) := by
  simp only [LruCache.touch, h.indexed.item hmem, h.indexed.filter_address hmem]
  obtain ⟨before, after, hitems, hrest⟩ := h.indexed.split hmem
  rw [hrest]
  have hperm : (entry :: (before ++ after)).Perm cache.items := by
    rw [hitems]
    exact List.perm_middle.symm
  have hkeys := (hperm.map (·.key)).nodup_iff.2 h.indexed.keys
  refine ⟨⟨hkeys, (hperm.map (·.address)).nodup_iff.2 h.indexed.addresses, fun key address => ?_⟩,
    fun other hother => h.heaped other (hperm.mem_iff.1 hother),
    fun other hother => h.current other (hperm.mem_iff.1 hother), fun key value hvisible => ?_, ?_,
    LruHistory.use_used h.used entry.key, ?_⟩
  · rw [h.indexed.index key address]
    simp only [hperm.mem_iff]
  · obtain ⟨other, hother, hkey⟩ := h.present key value hvisible
    exact ⟨other, hperm.mem_iff.2 hother, hkey⟩
  · rw [map_cons, nodup_cons] at hkeys
    refine LruHistory.recent_cons h.used hkeys.1 (h.recent.sublist ?_)
    rw [hitems]
    exact ((sublist_cons_self entry after).append_left before).map _
  exact h.accounted.trans ((hperm.map _).symm.append_right _)

/-! ## An entry is made -/

theorem Tracks.insert (h : Tracks cache history)
    (habsent : ∀ entry ∈ cache.items, entry.key ≠ key) (value : V) :
    Tracks { cache.insertFront key value with index := cache.index.insert key cache.allocated }
      { history.use key with
        current := update history.current key (some ⟨value, ⟨none, none⟩⟩) } := by
  have hfresh : ∀ entry ∈ cache.items, entry.address < cache.allocated := by
    intro entry hmem
    have haddress := h.accounted.mem_iff.2 (mem_append_left _ (mem_map_of_mem hmem))
    exact List.mem_range.1 haddress
  have hkeys : key ∉ cache.items.map (·.key) := by
    intro hmem
    obtain ⟨entry, hentry, hkey⟩ := List.mem_map.1 hmem
    exact habsent entry hentry hkey
  simp only [insertFront, takeVersion]
  refine ⟨⟨?_, ?_, fun other address => ?_⟩, fun entry hmem time htime => ?_, fun entry hmem => ?_,
    fun other v hvisible => ?_, ?_, LruHistory.use_used h.used key, ?_⟩
  · rw [map_cons, nodup_cons]
    exact ⟨hkeys, h.indexed.keys⟩
  · rw [map_cons, nodup_cons]
    refine ⟨fun hmem => ?_, h.indexed.addresses⟩
    obtain ⟨entry, hentry, haddress⟩ := List.mem_map.1 hmem
    exact absurd haddress (Nat.ne_of_lt (hfresh entry hentry))
  · by_cases hkey : other = key
    · subst hkey
      rw [AList.lookup_insert]
      constructor
      · intro heq
        exact ⟨_, mem_cons_self, rfl, Option.some.inj heq⟩
      rintro ⟨entry, hmem, hsame, rfl⟩
      rcases List.mem_cons.1 hmem with rfl | hmem
      · rfl
      exact absurd hsame (habsent entry hmem)
    rw [AList.lookup_insert_ne hkey, h.indexed.index other address]
    constructor
    · rintro ⟨entry, hmem, hsame⟩
      exact ⟨entry, mem_cons_of_mem _ hmem, hsame⟩
    rintro ⟨entry, hmem, hsame, haddress⟩
    rcases List.mem_cons.1 hmem with rfl | hmem
    · exact absurd hsame.symm hkey
    exact ⟨entry, hmem, hsame, haddress⟩
  · rcases List.mem_cons.1 hmem with rfl | hmem
    · cases htime
    exact h.heaped entry hmem time htime
  · rcases List.mem_cons.1 hmem with rfl | hmem
    · exact update_self _ _ _
    simp only
    rw [update_of_ne (habsent entry hmem)]
    exact h.current entry hmem
  · by_cases hkey : other = key
    · exact ⟨_, mem_cons_self, hkey.symm⟩
    obtain ⟨written, hcur, hvisible⟩ := hvisible
    simp only at hcur
    rw [update_of_ne hkey] at hcur
    obtain ⟨entry, hmem, hsame⟩ := h.present other v ⟨written, hcur, hvisible⟩
    exact ⟨entry, mem_cons_of_mem _ hmem, hsame⟩
  · exact LruHistory.recent_cons h.used hkeys h.recent
  rw [range_succ]
  exact (perm_append_singleton _ _).trans (h.accounted.cons _)

end Galay.Utils
