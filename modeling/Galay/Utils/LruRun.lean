import Galay.Utils.LruMoves

/-!
# Runs of the cache

Every call keeps the tie between the cache and its history, and it evicts for the capacity what was
used least recently.
-/

namespace Galay.Utils

open Function (update update_idem update_of_ne update_self)
open List
open LruCache

variable {K V : Type} [DecidableEq K]

/-- A call with the readings of the clock it makes, in their order. -/
inductive LruCall (K V : Type)
  | put (key : K) (value : V) (ttlNow purgeNow checkNow : Int)
  | putFor (key : K) (value : V) (ttl ttlNow purgeNow checkNow : Int)
  | putUntil (key : K) (value : V) (expiresAt purgeNow checkNow : Int)
  | emplace (key : K) (value : V) (ttlNow purgeNow checkNow : Int)
  | get (key : K) (purgeNow accessNow : Int)
  | peek (key : K) (purgeNow : Int)
  | contains (key : K) (purgeNow : Int)
  | remove (key : K) (purgeNow : Int)
  | setCapacity (capacity : Nat) (purgeNow : Int)
  | purgeExpired (purgeNow : Int)
  | clear

namespace LruCall

/-- The readings do not go back. -/
def Timed (now : Int) : LruCall K V → Prop
  | .put _ _ ttlNow purgeNow checkNow | .putFor _ _ _ ttlNow purgeNow checkNow
  | .emplace _ _ ttlNow purgeNow checkNow =>
    now ≤ ttlNow ∧ ttlNow ≤ purgeNow ∧ purgeNow ≤ checkNow
  | .putUntil _ _ _ purgeNow checkNow => now ≤ purgeNow ∧ purgeNow ≤ checkNow
  | .get _ purgeNow accessNow => now ≤ purgeNow ∧ purgeNow ≤ accessNow
  | .peek _ purgeNow | .contains _ purgeNow | .remove _ purgeNow | .setCapacity _ purgeNow
  | .purgeExpired purgeNow => now ≤ purgeNow
  | .clear => True

/-- The reading that purging goes by. -/
def purgeReading (now : Int) : LruCall K V → Int
  | .put _ _ _ purgeNow _ | .putFor _ _ _ _ purgeNow _ | .emplace _ _ _ purgeNow _
  | .putUntil _ _ _ purgeNow _ | .get _ purgeNow _ | .peek _ purgeNow | .contains _ purgeNow
  | .remove _ purgeNow | .setCapacity _ purgeNow | .purgeExpired purgeNow => purgeNow
  | .clear => now

def lastReading (now : Int) : LruCall K V → Int
  | .put _ _ _ _ checkNow | .putFor _ _ _ _ _ checkNow | .emplace _ _ _ _ checkNow
  | .putUntil _ _ _ _ checkNow => checkNow
  | .get _ _ accessNow => accessNow
  | call => call.purgeReading now

end LruCall

def LruCache.call (heap : ExpireTop K) (cache : LruCache K V) : LruCall K V → LruCache K V
  | .put key value ttlNow purgeNow checkNow => (cache.put heap key value ttlNow purgeNow checkNow).2
  | .putFor key value ttl ttlNow purgeNow checkNow =>
    (cache.putFor heap key value ttl ttlNow purgeNow checkNow).2
  | .putUntil key value expiresAt purgeNow checkNow =>
    (cache.putUntil heap key value expiresAt purgeNow checkNow).2
  | .emplace key value ttlNow purgeNow checkNow =>
    (cache.emplace heap key value ttlNow purgeNow checkNow).2
  | .get key purgeNow accessNow => (cache.get heap key purgeNow accessNow).2
  | .peek key purgeNow => (cache.peek heap key purgeNow).2
  | .contains key purgeNow => (cache.contains heap key purgeNow).2
  | .remove key purgeNow => (cache.remove heap key purgeNow).2
  | .setCapacity capacity purgeNow => cache.setCapacity heap capacity purgeNow
  | .purgeExpired purgeNow => (cache.purgeExpired heap purgeNow).2
  | .clear => cache.clear

/-- The entries that were evicted for the capacity, in their order. -/
def capacityEvictions (cache after : LruCache K V) : List (LruEntry K V) :=
  (after.evicted.drop cache.evicted.length).filterMap fun gone =>
    if gone.2 = .Capacity then some gone.1 else none

namespace LruHistory

variable (history : LruHistory K V)

variable (cache : LruCache K V)

/-- A write; where the capacity is zero it is evicted at once. -/
def write (key : K) (value : V) (expiration : Expiration) : LruHistory K V :=
  { history.use key with
    current := Function.update history.current key
      (if cache.capacity = 0 then none else some ⟨value, expiration⟩) }

/-- An access, which is one only when something is visible. -/
def access (key : K) (purgeNow accessNow : Int) : LruHistory K V :=
  match history.current key with
  | none => history
  | some written =>
    if Live purgeNow written.expiration.expiresAt then
      match refreshed cache.expirationPolicy written.expiration accessNow with
      | none => history.use key
      | some expiration =>
        { history.use key with
          current := Function.update history.current key (some ⟨written.value, expiration⟩) }
    else history

/-- The history with what a call writes and uses. -/
def written : LruCall K V → LruHistory K V
  | .put key value ttlNow _ _ | .emplace key value ttlNow _ _ =>
    history.write cache key value (expirationFromTtl cache.defaultTtl ttlNow)
  | .putFor key value ttl ttlNow _ _ =>
    history.write cache key value (expirationFromTtl (some ttl) ttlNow)
  | .putUntil key value expiresAt _ _ => history.write cache key value ⟨some expiresAt, none⟩
  | .get key purgeNow accessNow => history.access cache key purgeNow accessNow
  | .remove key _ => { history with current := Function.update history.current key none }
  | .clear => { history with current := fun _ => none }
  | _ => history

/-- The history after a call: what was evicted for the capacity is forgotten. -/
def call (heap : ExpireTop K) (cache : LruCache K V) (next : LruCall K V) : LruHistory K V :=
  { history.written cache next with
    current := forget (history.written cache next).current
      ((capacityEvictions cache (cache.call heap next)).map (·.key))
    now := next.lastReading history.now }

/-- Each entry was the least recently used one of those that were visible and not evicted before. -/
def EvictsLeast (now : Int) (entries : List (LruEntry K V)) : Prop :=
  ∀ before entry after, entries = before ++ entry :: after →
    history.Visible now entry.key entry.value ∧
      ∀ key value, history.Visible now key value → key ∉ before.map (·.key) → key ≠ entry.key →
        history.lastUse entry.key < history.lastUse key

end LruHistory

variable {heap : ExpireTop K} {cache after : LruCache K V} {history : LruHistory K V}
  {next : LruCall K V}

/-- What a call comes to: `written` is the history with what it writes and uses. -/
structure StepOk (cache after : LruCache K V) (written : LruHistory K V) (purgeNow last : Int) :
    Prop where
  tracks : Tracks after
    { written with
      current := forget written.current ((capacityEvictions cache after).map (·.key))
      now := last }
  bounded : after.items.length ≤ after.capacity
  least : written.EvictsLeast purgeNow (capacityEvictions cache after)

theorem capacityEvictions_append (hevicted : after.evicted = cache.evicted ++ left) :
    capacityEvictions cache after =
      left.filterMap fun gone => if gone.2 = .Capacity then some gone.1 else none := by
  rw [capacityEvictions, hevicted, drop_left]

/-- Nothing was evicted for the capacity. -/
theorem StepOk.quiet (htracks : Tracks after { written with now := last })
    (hbounded : after.items.length ≤ after.capacity)
    (hevicted : ∃ left, after.evicted = cache.evicted ++ left ∧ ∀ gone ∈ left, gone.2 ≠ .Capacity) :
    StepOk cache after written purgeNow last := by
  obtain ⟨left, hleft, hreasons⟩ := hevicted
  have hnone : capacityEvictions cache after = [] := by
    rw [capacityEvictions_append hleft]
    exact List.filterMap_eq_nil_iff.2 fun gone hgone => if_neg (hreasons gone hgone)
  refine ⟨?_, hbounded, ?_⟩
  · rw [hnone, map_nil, forget_nil]
    exact htracks
  rw [hnone]
  intro before entry after heq
  exact absurd heq.symm (append_ne_nil_of_right_ne_nil before (cons_ne_nil entry after))

/-- The entries at the end of the list are those that were used least recently. -/
theorem Tracks.evictsLeast (h : Tracks cache history)
    (hlive : ∀ entry ∈ cache.items, Live history.now entry.expiresAt) (limit : Nat) :
    history.EvictsLeast history.now (cache.items.drop limit).reverse := by
  intro before entry after heq
  have hdrop : cache.items.drop limit = after.reverse ++ entry :: before.reverse := by
    rw [← reverse_reverse (cache.items.drop limit), heq, reverse_append, reverse_cons, append_assoc]
    rfl
  have hitems : cache.items = (cache.items.take limit ++ after.reverse) ++ entry :: before.reverse := by
    rw [append_assoc, ← hdrop, take_append_drop]
  have hmem : entry ∈ cache.items := by
    rw [hitems]
    exact mem_append_right _ mem_cons_self
  refine ⟨(h.visible_iff hlive _ _).2 ⟨entry, hmem, rfl, rfl⟩, fun key value hvisible hbefore hne => ?_⟩
  obtain ⟨other, hother, rfl⟩ := h.present key value hvisible
  have hrecent := h.recent
  rw [hitems, map_append, pairwise_append] at hrecent
  rw [hitems] at hother
  rcases List.mem_append.1 hother with hother | hother
  · exact hrecent.2.2 _ (mem_map_of_mem hother) _ (mem_map_of_mem mem_cons_self)
  rcases List.mem_cons.1 hother with rfl | hother
  · exact absurd rfl hne
  exact absurd (mem_map_of_mem (List.mem_reverse.1 hother)) hbefore

theorem forget_congr {current : K → Option (Written V)} {keys : List K}
    (h : ∀ key, key ∈ keys ↔ key ∈ keys') : forget current keys = forget current keys' := by
  funext key
  simp only [forget, h key]

theorem Tracks.evictAll (h : Tracks cache history) (limit : Nat) (reason : EvictReason) :
    Tracks (LruCache.evictLoop limit reason cache.items.length cache)
        { history with
          current := forget history.current ((cache.items.drop limit).map (·.key)) } ∧
      Evicted limit reason cache (LruCache.evictLoop limit reason cache.items.length cache) :=
  h.evictLoop _ (Nat.le_refl _)

/-- What does not fit is evicted at the end of a call. -/
theorem StepOk.evict
    (htracks : Tracks middle { written with now := purgeNow }) (hle : purgeNow ≤ last)
    (hlive : ∀ entry ∈ middle.items, Live purgeNow entry.expiresAt)
    (hevicted : ∃ left, middle.evicted = cache.evicted ++ left ∧
      ∀ gone ∈ left, gone.2 ≠ .Capacity) :
    StepOk cache middle.enforceCapacity written purgeNow last := by
  obtain ⟨left, hleft, hreasons⟩ := hevicted
  obtain ⟨hafter, hgone⟩ := htracks.evictAll middle.capacity .Capacity
  have hevictions : capacityEvictions cache middle.enforceCapacity =
      (middle.items.drop middle.capacity).reverse := by
    have heq : middle.enforceCapacity.evicted = cache.evicted ++ (left ++
        (middle.items.drop middle.capacity).reverse.map fun entry => (entry, .Capacity)) := by
      rw [← append_assoc, ← hleft]
      exact hgone.evicted
    rw [capacityEvictions_append heq, filterMap_append,
      List.filterMap_eq_nil_iff.2 (fun gone hgone => if_neg (hreasons gone hgone)),
      nil_append, filterMap_map]
    exact filterMap_some
  refine ⟨?_, ?_, ?_⟩
  · have hkeys : forget written.current ((middle.items.drop middle.capacity).map (·.key)) =
        forget written.current
          ((middle.items.drop middle.capacity).reverse.map (·.key)) :=
      forget_congr fun key => by rw [map_reverse, mem_reverse]
    rw [hevictions, ← hkeys]
    exact hafter.advance hle
  · have hitems : middle.enforceCapacity.items = middle.items.take middle.capacity := hgone.items
    have hcap : middle.enforceCapacity.capacity = middle.capacity := hgone.config.capacity
    rw [hitems, hcap]
    exact length_take_le _ _
  rw [hevictions]
  exact htracks.evictsLeast hlive middle.capacity

/-! ## The calls -/

theorem Purged.bounded (h : Purged now cache after)
    (hbounded : cache.items.length ≤ cache.capacity) : after.items.length ≤ after.capacity := by
  rw [h.items, h.config.capacity]
  exact Nat.le_trans (length_filter_le _ _) hbounded

theorem Purged.noCapacity (h : Purged now cache after) :
    ∃ left, after.evicted = cache.evicted ++ left ∧ ∀ gone ∈ left, gone.2 ≠ .Capacity := by
  obtain ⟨left, hleft, hexpired⟩ := h.evicted
  refine ⟨left, hleft, fun gone hgone => ?_⟩
  rw [hexpired gone hgone]
  nofun

theorem StepOk.purge (h : Tracks cache history)
    (hbounded : cache.items.length ≤ cache.capacity) (hle : history.now ≤ now) :
    StepOk cache (cache.purgeExpired heap now).2 history now now := by
  obtain ⟨htracks, hpurged⟩ := h.purgeExpired heap hle
  exact .quiet htracks (hpurged.bounded hbounded) hpurged.noCapacity

/-- A key that is not in the list is used. -/
theorem Tracks.useAbsent (h : Tracks cache history)
    (habsent : ∀ entry ∈ cache.items, entry.key ≠ key) : Tracks cache (history.use key) where
  __ := h
  recent := by
    refine h.recent.imp_of_mem fun hmem hmem' hlt => ?_
    have hne {other : K} (hmem : other ∈ cache.items.map (·.key)) : other ≠ key := by
      obtain ⟨entry, hentry, rfl⟩ := List.mem_map.1 hmem
      exact habsent entry hentry
    simp only [LruHistory.use]
    rw [update_of_ne (hne hmem), update_of_ne (hne hmem')]
    exact hlt
  used := LruHistory.use_used h.used key

theorem Tracks.removeKey (h : Tracks cache history) (key : K) (reason : EvictReason) :
    Tracks (cache.removeKey key reason)
        { history with current := update history.current key none } ∧
      (∀ entry ∈ (cache.removeKey key reason).items, entry.key ≠ key) ∧
      SameConfig cache (cache.removeKey key reason) ∧
      (cache.removeKey key reason).items.length ≤ cache.items.length ∧
      ∃ left, (cache.removeKey key reason).evicted = cache.evicted ++ left ∧
        ∀ gone ∈ left, gone.2 = reason := by
  unfold LruCache.removeKey
  cases hlook : cache.index.lookup key with
  | none =>
    have habsent := h.indexed.lookup_eq_none.1 hlook
    exact ⟨h.absent habsent nofun, habsent, ⟨rfl, rfl, rfl⟩, Nat.le_refl _, [],
      (append_nil _).symm, nofun⟩
  | some address =>
  obtain ⟨entry, hmem, rfl, rfl⟩ := (h.indexed.index key address).1 hlook
  have htracks := h.eraseKey hmem reason
  simp only
  rw [h.indexed.eraseEntry hmem] at htracks ⊢
  refine ⟨htracks, fun other hother => of_decide_eq_true (List.mem_filter.1 hother).2,
    ⟨rfl, rfl, rfl⟩, length_filter_le _ _, [(entry, reason)], rfl, fun gone hgone => ?_⟩
  rw [List.mem_singleton.1 hgone]

theorem noCapacity_trans {middle : LruCache K V}
    (h : ∃ left, middle.evicted = cache.evicted ++ left ∧ ∀ gone ∈ left, gone.2 ≠ .Capacity)
    (h' : ∃ left, after.evicted = middle.evicted ++ left ∧ ∀ gone ∈ left, gone.2 ≠ .Capacity) :
    ∃ left, after.evicted = cache.evicted ++ left ∧ ∀ gone ∈ left, gone.2 ≠ .Capacity := by
  obtain ⟨left, hleft, hreasons⟩ := h
  obtain ⟨left', hleft', hreasons'⟩ := h'
  refine ⟨left ++ left', ?_, fun gone hgone => ?_⟩
  · rw [hleft', hleft, append_assoc]
  rcases List.mem_append.1 hgone with hgone | hgone
  · exact hreasons gone hgone
  exact hreasons' gone hgone

section

variable (h : Tracks cache history)
include h

theorem StepOk.remove (hbounded : cache.items.length ≤ cache.capacity) (hle : history.now ≤ now) :
    StepOk cache (cache.remove heap key now).2
      { history with current := update history.current key none } now now := by
  obtain ⟨htracks, hpurged⟩ := h.purgeExpired heap hle
  have heq : (cache.remove heap key now).2 =
      (cache.purgeExpired heap now).2.removeKey key .Removed := by
    simp only [LruCache.remove, LruCache.removeKey]
    cases (cache.purgeExpired heap now).2.index.lookup key <;> rfl
  obtain ⟨hremoved, -, hconfig, hlen, left, hleft, hreasons⟩ := htracks.removeKey key .Removed
  rw [heq]
  refine .quiet hremoved ?_ (noCapacity_trans hpurged.noCapacity ⟨left, hleft, fun gone hgone => ?_⟩)
  · rw [hconfig.capacity]
    exact Nat.le_trans hlen (hpurged.bounded hbounded)
  rw [hreasons gone hgone]
  nofun

theorem StepOk.setCapacity {capacity : Nat} (hle : history.now ≤ now) :
    StepOk cache (cache.setCapacity heap capacity now) history now now := by
  have hset : Tracks { cache with capacity } history :=
    { h with indexed := ⟨h.indexed.keys, h.indexed.addresses, h.indexed.index⟩ }
  obtain ⟨htracks, hpurged⟩ := hset.purgeExpired heap hle
  exact .evict htracks (Int.le_refl now) hpurged.live hpurged.noCapacity

theorem StepOk.clear :
    StepOk cache cache.clear { history with current := fun _ => none } history.now history.now := by
  obtain ⟨htracks, hgone⟩ := h.evictAll 0 .Cleared
  have hitems : cache.clear.items = [] := hgone.items.trans take_zero
  refine .quiet ?_ ?_ ⟨_, hgone.evicted, fun gone hmem => ?_⟩
  · refine ⟨{ htracks.indexed with }, ?_, ?_, ?_, htracks.recent, htracks.used, htracks.accounted⟩
    · rw [hitems]
      exact fun entry hmem => absurd hmem not_mem_nil
    · rw [hitems]
      exact fun entry hmem => absurd hmem not_mem_nil
    rintro key value ⟨written, hcur, -⟩
    nomatch hcur
  · rw [hitems]
    exact Nat.zero_le _
  obtain ⟨entry, -, rfl⟩ := List.mem_map.1 hmem
  nofun

variable {entry : LruEntry K V}

theorem Tracks.value_eq (hmem : entry ∈ cache.items)
    (hcur : history.current entry.key = some written) :
    entry.value = written.value ∧ ⟨entry.expiresAt, entry.ttl⟩ = written.expiration := by
  rw [h.current entry hmem] at hcur
  obtain rfl := Option.some.inj hcur
  exact ⟨rfl, rfl⟩

theorem Tracks.overwrite (hmem : entry ∈ cache.items) (value : V) (expiration : Expiration) :
    Tracks (((cache.modifyItem entry.address fun entry => { entry with value }).updateExpiration
          entry.address expiration).touch entry.address)
        { history.use entry.key with
          current := update history.current entry.key (some ⟨value, expiration⟩) } ∧
      Reordered cache (((cache.modifyItem entry.address fun entry =>
        { entry with value }).updateExpiration entry.address expiration).touch entry.address) := by
  obtain ⟨hval, hset⟩ := h.setValue hmem value
  obtain ⟨valued, hvalued, hkey, haddress⟩ := hset.mem hmem
  have hcur := (hval.value_eq hvalued (by
    simp only
    rw [hkey, update_self])).1
  obtain ⟨hexpir, hupdated⟩ := hval.updateExpiration hvalued expiration
  obtain ⟨updated, hmemUpdated, hkey', haddress'⟩ := hupdated.mem hvalued
  have htouched := hexpir.touch hmemUpdated
  have hreordered := hexpir.indexed.touch hmemUpdated
  rw [haddress', haddress, hkey', hkey] at htouched
  rw [haddress', haddress] at hreordered
  rw [haddress] at hupdated
  refine ⟨?_, (hset.reordered.trans hupdated.reordered).trans hreordered⟩
  simp only [LruHistory.use, hcur, update_idem] at htouched ⊢
  exact htouched

/-- A write under a new key, before what does not fit is evicted. -/
theorem Tracks.insertNew (habsent : ∀ entry ∈ cache.items, entry.key ≠ key) (value : V)
    (expiration : Expiration) : Tracks (LruCache.updateExpiration
          { cache.insertFront key value with index := cache.index.insert key cache.allocated }
          cache.allocated expiration) { history.use key with
          current := update history.current key (some ⟨value, expiration⟩) } ∧
      Rewritten { cache.insertFront key value with index := cache.index.insert key cache.allocated }
        (LruCache.updateExpiration
          { cache.insertFront key value with index := cache.index.insert key cache.allocated }
          cache.allocated expiration) := by
  have hinserted := h.insert habsent value
  have hmem : ({ address := cache.allocated, key, value
                 version := (cache.nextVersion + 1) % 2 ^ 64 } : LruEntry K V) ∈
      (cache.insertFront key value).items := mem_cons_self
  obtain ⟨hexpir, hupdated⟩ := hinserted.updateExpiration hmem expiration
  refine ⟨?_, hupdated⟩
  simp only [LruHistory.use, update_idem] at hexpir ⊢
  exact hexpir

theorem live_insertNew
    (hlive : ∀ entry ∈ cache.items, Live now entry.expiresAt) (hnew : Live now expiration.expiresAt)
    (hafter : Tracks after { history.use key with current := update history.current key (some ⟨value, expiration⟩) })
    (hrewritten : Rewritten { cache.insertFront key value with index := cache.index.insert key cache.allocated } after)
    : ∀ entry ∈ after.items, Live now entry.expiresAt := by
  intro entry hmem
  have hcur := hafter.current entry hmem
  simp only at hcur
  by_cases hkey : entry.key = key
  · rw [hkey, update_self] at hcur
    rw [show entry.expiresAt = expiration.expiresAt from
      congrArg (·.expiration.expiresAt) (Option.some.inj hcur).symm]
    exact hnew
  rw [update_of_ne hkey] at hcur
  have hpair : pair entry ∈ (cache.insertFront key value).items.map pair := by
    rw [← hrewritten.pairs]
    exact mem_map_of_mem hmem
  obtain ⟨old, hold, heq⟩ := List.mem_map.1 hpair
  have hsame : old.key = entry.key := congrArg Prod.fst heq
  rcases List.mem_cons.1 hold with rfl | hold
  · exact absurd hsame.symm hkey
  have hexpir := (h.value_eq hold (hsame ▸ hcur)).2
  have hexpires : old.expiresAt = entry.expiresAt := congrArg Expiration.expiresAt hexpir
  rw [← hexpires]
  exact hlive old hold

theorem StepOk.put (hbounded : cache.items.length ≤ cache.capacity) (hle : history.now ≤ purgeNow)
    (hcheck : purgeNow ≤ checkNow) :
    StepOk cache (cache.putWithExpiration heap key value expiration purgeNow checkNow).2
      (history.write cache key value expiration) purgeNow checkNow := by
  obtain ⟨htracks, hpurged⟩ := h.purgeExpired heap hle
  have hroom := hpurged.bounded hbounded
  have hcap := hpurged.config.capacity
  simp only [LruCache.putWithExpiration]
  generalize (cache.purgeExpired heap purgeNow).2 = purged at *
  by_cases hdead : ¬ Live checkNow expiration.expiresAt
  · rw [if_pos hdead]
    obtain ⟨hremoved, habsent, hconfig, hlen, left, hleft, hreasons⟩ :=
      (htracks.advance hcheck).removeKey key .Expired
    refine .quiet ?_ ?_ (noCapacity_trans hpurged.noCapacity ⟨left, hleft, fun gone hgone => ?_⟩)
    · have hinvisible (w : Written V)
          (hw : (if cache.capacity = 0 then none else some ⟨value, expiration⟩) = some w) :
          ¬ Live checkNow w.expiration.expiresAt := by
        split at hw
        · cases hw
        rw [← Option.some.inj hw]
        exact hdead
      have hgone := (hremoved.useAbsent habsent).absent habsent hinvisible
      simp only [LruHistory.use, update_idem] at hgone
      exact hgone
    · rw [hconfig.capacity]
      exact Nat.le_trans hlen hroom
    rw [hreasons gone hgone]
    rintro ⟨⟩
  rw [if_neg hdead]
  have hnew := not_not.1 hdead
  by_cases hzero : purged.capacity = 0
  · rw [if_pos hzero]
    have hitems : purged.items = [] := by
      rw [hzero] at hroom
      exact List.length_eq_zero_iff.1 (Nat.le_zero.1 hroom)
    have habsent : ∀ entry ∈ purged.items, entry.key ≠ key := by
      rw [hitems]
      exact fun entry hmem => absurd hmem not_mem_nil
    have hsame : purged.removeKey key .Capacity = purged := by
      rw [LruCache.removeKey, htracks.indexed.lookup_eq_none.2 habsent]
    rw [hsame]
    refine .quiet ?_ hroom hpurged.noCapacity
    rw [LruHistory.write, if_pos (hcap.symm.trans hzero)]
    exact ((htracks.advance hcheck).useAbsent habsent).absent habsent (by rintro _ ⟨⟩)
  rw [if_neg hzero]
  have hwrite : history.write cache key value expiration =
      { history.use key with
        current := update history.current key (some ⟨value, expiration⟩) } := by
    rw [LruHistory.write, if_neg (fun heq => hzero (hcap.trans heq))]
  rw [hwrite]
  cases hlook : purged.index.lookup key with
  | some address =>
    obtain ⟨entry, hmem, rfl, rfl⟩ := (htracks.indexed.index key address).1 hlook
    obtain ⟨hwritten, hreordered⟩ := htracks.overwrite hmem value expiration
    refine .quiet (hwritten.advance hcheck) ?_ ?_
    · rw [hreordered.config.capacity, hreordered.length]
      exact hroom
    rw [hreordered.evicted]
    exact hpurged.noCapacity
  | none =>
  have habsent := htracks.indexed.lookup_eq_none.1 hlook
  obtain ⟨hwritten, hrewritten⟩ := htracks.insertNew habsent value expiration
  refine .evict hwritten hcheck
    (live_insertNew htracks hpurged.live (hnew.mono hcheck) hwritten hrewritten) ?_
  obtain ⟨left, hleft, hreasons⟩ := hpurged.noCapacity
  exact ⟨left, hrewritten.evicted.trans hleft, hreasons⟩

/-- What the index finds after purging is what is visible. -/
theorem Tracks.found_iff (hlive : ∀ entry ∈ cache.items, Live history.now entry.expiresAt) :
    (∃ address, cache.found key = some (address, value)) ↔
      history.Visible history.now key value := by
  rw [h.visible_iff hlive]
  unfold LruCache.found
  constructor
  · rintro ⟨address, hfound⟩
    obtain ⟨_, hlook, hitem⟩ := Option.bind_eq_some_iff.1 hfound
    obtain ⟨entry, hmem, rfl, rfl⟩ := (h.indexed.index key _).1 hlook
    rw [h.indexed.item hmem] at hitem
    exact ⟨entry, hmem, rfl, congrArg Prod.snd (Option.some.inj hitem)⟩
  rintro ⟨entry, hmem, rfl, rfl⟩
  refine ⟨entry.address, ?_⟩
  rw [h.indexed.lookup hmem, Option.bind_some, h.indexed.item hmem]
  rfl

theorem Tracks.found_of_mem (hmem : entry ∈ cache.items) :
    cache.found entry.key = some (entry.address, entry.value) := by
  rw [LruCache.found, h.indexed.lookup hmem, Option.bind_some, h.indexed.item hmem]
  rfl

end

theorem Tracks.access (accessNow : Int) (h : Tracks cache history)
    (hmem : entry ∈ cache.items) (hlive : Live history.now entry.expiresAt) :
    Tracks ((cache.touch entry.address).refreshExpirationAfterAccess entry.address accessNow)
        (history.access cache entry.key history.now accessNow) ∧ Reordered cache
        ((cache.touch entry.address).refreshExpirationAfterAccess entry.address accessNow) := by
  have htouched := h.touch hmem
  have hreordered := h.indexed.touch hmem
  have hfirst : entry ∈ (cache.touch entry.address).items := by
    simp only [LruCache.touch, h.indexed.item hmem]
    exact mem_cons_self
  unfold LruCache.refreshExpirationAfterAccess LruHistory.access
  rw [htouched.indexed.item hfirst, h.current entry hmem]
  simp only [if_pos hlive, hreordered.config.expirationPolicy]
  cases refreshed cache.expirationPolicy ⟨entry.expiresAt, entry.ttl⟩ accessNow with
  | none => exact ⟨htouched, hreordered⟩
  | some expiration =>
  obtain ⟨hexpir, hupdated⟩ := htouched.updateExpiration hfirst expiration
  exact ⟨hexpir, hreordered.trans hupdated.reordered⟩

variable {purgeNow accessNow : Int}

theorem LruHistory.access_of_invisible
    (hinvisible : ∀ value, ¬ history.Visible purgeNow key value) :
    history.access cache key purgeNow accessNow = history := by
  unfold LruHistory.access
  cases hcur : history.current key with
  | none => rfl
  | some written =>
  exact if_neg fun hlive => hinvisible written.value ⟨written, hcur, rfl, hlive⟩

theorem LruHistory.access_now (now : Int) :
    LruHistory.access { history with now } cache key purgeNow accessNow =
      { history.access cache key purgeNow accessNow with now } := by
  simp only [LruHistory.access]
  cases history.current key with
  | none => rfl
  | some written =>
  by_cases hlive : Live purgeNow written.expiration.expiresAt
  · simp only [if_pos hlive]
    cases refreshed cache.expirationPolicy written.expiration accessNow <;> rfl
  simp only [if_neg hlive]

theorem StepOk.get (h : Tracks cache history)
    (hbounded : cache.items.length ≤ cache.capacity) (hle : history.now ≤ purgeNow)
    (haccess : purgeNow ≤ accessNow) : StepOk cache (cache.get heap key purgeNow accessNow).2
      (history.access cache key purgeNow accessNow) purgeNow accessNow := by
  obtain ⟨htracks, hpurged⟩ := h.purgeExpired heap hle
  have hroom := hpurged.bounded hbounded
  have hpolicy := hpurged.config.expirationPolicy
  simp only [LruCache.get]
  generalize (cache.purgeExpired heap purgeNow).2 = purged at *
  by_cases hpresent : ∃ entry ∈ purged.items, entry.key = key
  · obtain ⟨entry, hmem, rfl⟩ := hpresent
    obtain ⟨haccessed, hreordered⟩ := htracks.access accessNow hmem
      (hpurged.live entry hmem)
    have hsame : history.access purged entry.key purgeNow accessNow =
        history.access cache entry.key purgeNow accessNow := by
      simp only [LruHistory.access, hpolicy]
    rw [LruHistory.access_now, hsame] at haccessed
    rw [htracks.found_of_mem hmem]
    refine .quiet (haccessed.advance haccess) ?_ ?_
    · rw [hreordered.config.capacity, hreordered.length]
      exact hroom
    rw [hreordered.evicted]
    exact hpurged.noCapacity
  have habsent : ∀ entry ∈ purged.items, entry.key ≠ key := fun entry hmem hkey =>
    hpresent ⟨entry, hmem, hkey⟩
  have hnone : purged.found key = none := by
    rw [LruCache.found, htracks.indexed.lookup_eq_none.2 habsent]
    rfl
  have hinvisible (value : V) : ¬ history.Visible purgeNow key value := fun hvisible =>
    hpresent (htracks.present key value hvisible)
  rw [hnone, LruHistory.access_of_invisible hinvisible]
  exact .quiet (htracks.advance haccess) hroom hpurged.noCapacity

/-! ## Runs -/

/-- The caches that calls come to, with their histories. The readings of the clock do not go back. -/
inductive LruRun (heap : ExpireTop K) : LruCache K V → LruHistory K V → Prop
  | new (capacity : Nat) (defaultTtl : Option Int) (expirationPolicy : ExpirationPolicy) (now : Int) :
    LruRun heap { capacity, defaultTtl, expirationPolicy } { now }
  | call {cache : LruCache K V} {history : LruHistory K V} (next : LruCall K V)
    (hrun : LruRun heap cache history) (htimed : next.Timed history.now) :
    LruRun heap (cache.call heap next) (history.call heap cache next)

theorem stepOk_call (heap : ExpireTop K) (h : Tracks cache history) (hbounded : cache.items.length ≤ cache.capacity)
    (htimed : next.Timed history.now) :
    StepOk cache (cache.call heap next) (history.written cache next)
      (next.purgeReading history.now) (next.lastReading history.now) := by
  cases next with
  | put | putFor | emplace =>
    obtain ⟨httl, hpurge, hcheck⟩ := htimed
    exact .put h hbounded (Int.le_trans httl hpurge) hcheck
  | putUntil => exact .put h hbounded htimed.1 htimed.2
  | get => exact .get h hbounded htimed.1 htimed.2
  | peek | contains | purgeExpired => exact .purge h hbounded htimed
  | remove => exact .remove h hbounded htimed
  | setCapacity => exact .setCapacity h htimed
  | clear => exact .clear h

theorem LruRun.tracks (hrun : LruRun heap cache history) :
    Tracks cache history ∧ cache.items.length ≤ cache.capacity := by
  induction hrun with
  | new capacity defaultTtl expirationPolicy now =>
    refine ⟨⟨⟨.nil, .nil, fun key address => ⟨nofun, ?_⟩⟩, nofun, nofun, ?_, .nil,
      fun _ => Nat.le_refl _, .nil⟩, Nat.zero_le _⟩
    · rintro ⟨entry, hmem, -⟩
      exact absurd hmem not_mem_nil
    rintro key value ⟨written, hcur, -⟩
    nomatch hcur
  | call next hrun htimed ih =>
  have hstep := stepOk_call heap ih.1 ih.2 htimed
  exact ⟨hstep.tracks, hstep.bounded⟩

/-- What is found is what is visible, whichever way it is asked for. -/
theorem Tracks.peek_iff (h : Tracks cache history) (hle : history.now ≤ now) (key : K)
    (value : V) : (cache.peek heap key now).1 = some value ↔ history.Visible now key value := by
  obtain ⟨htracks, hpurged⟩ := h.purgeExpired heap hle
  simp only [LruCache.peek, Option.map_eq_some_iff]
  refine Iff.trans ?_ (htracks.found_iff hpurged.live)
  constructor
  · rintro ⟨⟨address, _⟩, hfound, rfl⟩
    exact ⟨address, hfound⟩
  rintro ⟨address, hfound⟩
  exact ⟨(address, value), hfound, rfl⟩

theorem get_eq_peek (heap : ExpireTop K) (cache : LruCache K V) (key : K) (now accessNow : Int) :
    (cache.get heap key now accessNow).1 = (cache.peek heap key now).1 := by
  simp only [LruCache.get, LruCache.peek]
  cases (cache.purgeExpired heap now).2.found key <;> rfl

theorem Tracks.contains_iff (h : Tracks cache history) (hle : history.now ≤ now)
    (key : K) : (cache.contains heap key now).1 = true ↔ ∃ value, history.Visible now key value := by
  obtain ⟨htracks, hpurged⟩ := h.purgeExpired heap hle
  simp only [LruCache.contains]
  have hvisible (value : V) := htracks.visible_iff hpurged.live key value
  rw [Option.isSome_iff_exists]
  constructor
  · rintro ⟨address, hlook⟩
    obtain ⟨entry, hmem, hkey, -⟩ := (htracks.indexed.index key address).1 hlook
    exact ⟨entry.value, (hvisible entry.value).2 ⟨entry, hmem, hkey, rfl⟩⟩
  rintro ⟨value, hval⟩
  obtain ⟨entry, hmem, rfl, -⟩ := (hvisible value).1 hval
  exact ⟨entry.address, htracks.indexed.lookup hmem⟩

/-- In every run the index and the list describe the same entries, there are no more than the capacity,
what is found is the last write that was neither removed nor evicted nor has expired, the evictions
for the capacity take the least recently used entry, and each entry that was made is in the list or
has been given to the callback once. -/
theorem lruCache_of_run (hrun : LruRun heap cache history) :
    (cache.items.map (·.key)).Nodup ∧
    (∀ key address, cache.index.lookup key = some address ↔
      ∃ entry ∈ cache.items, entry.key = key ∧ entry.address = address) ∧
    cache.items.length ≤ cache.capacity ∧
    (∀ now, history.now ≤ now → ∀ key,
      (∀ value, (cache.peek heap key now).1 = some value ↔ history.Visible now key value) ∧
      (∀ accessNow value,
        (cache.get heap key now accessNow).1 = some value ↔ history.Visible now key value) ∧
      ((cache.contains heap key now).1 = true ↔ ∃ value, history.Visible now key value)) ∧
    (∀ next, next.Timed history.now →
      (history.written cache next).EvictsLeast (next.purgeReading history.now)
        (capacityEvictions cache (cache.call heap next))) ∧
    (List.range cache.allocated).Perm
      (cache.items.map (·.address) ++ cache.evicted.map (·.1.address)) := by
  obtain ⟨h, hbounded⟩ := hrun.tracks
  refine ⟨h.indexed.keys, h.indexed.index, hbounded, fun now hle key => ⟨?_, ?_, ?_⟩, ?_,
    h.accounted⟩
  · exact h.peek_iff hle key
  · intro accessNow value
    rw [get_eq_peek]
    exact h.peek_iff hle key value
  · exact h.contains_iff hle key
  · exact fun next htimed => (stepOk_call heap h hbounded htimed).least

/-- The first node with the least time. -/
def firstTop : List (ExpireNode K) → Option (ExpireNode K)
  | [] => none
  | node :: nodes =>
    match firstTop nodes with
    | none => some node
    | some other => if node.expiresAt ≤ other.expiresAt then some node else some other

theorem firstTop_nil {nodes : List (ExpireNode K)} (h : firstTop nodes = none) : nodes = [] := by
  cases nodes with
  | nil => rfl
  | cons node nodes =>
  unfold firstTop at h
  split at h
  · nomatch h
  split at h <;> nomatch h

theorem firstTop_spec {node : ExpireNode K} (h : firstTop nodes = some node) :
    node ∈ nodes ∧ ∀ other ∈ nodes, node.expiresAt ≤ other.expiresAt := by
  induction nodes generalizing node with
  | nil => nomatch h
  | cons first nodes ih =>
  unfold firstTop at h
  split at h
  · next hnone =>
    obtain rfl := Option.some.inj h
    rw [firstTop_nil hnone]
    exact ⟨mem_cons_self, fun other hother =>
      Int.le_of_eq (congrArg _ (List.mem_singleton.1 hother).symm)⟩
  next least hleast =>
  obtain ⟨hmem, hle⟩ := ih hleast
  split at h
  · next hfirst =>
    obtain rfl := Option.some.inj h
    refine ⟨mem_cons_self, fun other hother => ?_⟩
    rcases List.mem_cons.1 hother with rfl | hother
    · exact Int.le_refl _
    exact Int.le_trans hfirst (hle other hother)
  next hfirst =>
  obtain rfl := Option.some.inj h
  refine ⟨mem_cons_of_mem _ hmem, fun other hother => ?_⟩
  rcases List.mem_cons.1 hother with rfl | hother
  · exact Int.le_of_lt (Int.not_le.1 hfirst)
  exact hle other hother

def firstExpireTop : ExpireTop K where
  top := firstTop
  top_nil _ := firstTop_nil
  top_mem _ _ h := (firstTop_spec h).1
  top_le _ _ h := (firstTop_spec h).2

/-- Three keys in a cache of two: the first is used again before the third comes, and so the second is
evicted; later the first expires. -/
theorem lruCache_of_three_keys :
    ∃ (cache : LruCache Nat Nat) (history : LruHistory Nat Nat),
      LruRun firstExpireTop cache history ∧
      cache.evicted.map (fun gone => (gone.1.key, gone.1.value, gone.2)) =
        [(2, 20, .Capacity), (1, 10, .Expired)] ∧
      (cache.peek firstExpireTop 3 9).1 = some 30 ∧ history.Visible 9 3 30 ∧
      (List.range cache.allocated).Perm
        (cache.items.map (·.address) ++ cache.evicted.map (·.1.address)) := by
  have hfirst : LruRun firstExpireTop _ _ := (LruRun.new (V := Nat) 2 none .ExpireAfterWrite 0).call
    (.putFor 1 10 5 0 0 0) (by simp only [LruCall.Timed]; decide)
  have hsecond := hfirst.call (.put 2 20 1 1 1) (by simp only [LruCall.Timed]; decide)
  have hused := hsecond.call (.get 1 2 2) (by simp only [LruCall.Timed]; decide)
  have hthird := hused.call (.putFor 3 30 9 3 3 3) (by simp only [LruCall.Timed]; decide)
  have hexpired := hthird.call (.purgeExpired 6) (by simp only [LruCall.Timed]; decide)
  obtain ⟨-, -, -, hvisible, -, haccounted⟩ := lruCache_of_run hexpired
  refine ⟨_, _, hexpired, by decide, by decide, ?_, haccounted⟩
  exact ((hvisible 9 (by decide) 3).1 30).1 (by decide)

end Galay.Utils
