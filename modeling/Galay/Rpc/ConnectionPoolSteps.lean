import Galay.Rpc.ConnectionPool
import Mathlib.Data.List.Perm.Basic

/-!
# What the operations of a connection pool change

Each operation changes one bucket, and takes ids from the counter (`Changed`).
-/

namespace Galay.Rpc

open List

namespace RpcConnectionPool

variable {ι : Type*} {pool pool' pool'' : RpcConnectionPool ι} {key k endpoint : RpcEndpoint}
  {b b' : EndpointBucket ι} {n n' : Nat}

/-- All connections in free lists. -/
def idle (pool : RpcConnectionPool ι) : List RpcPooledConnection :=
  pool.buckets.entries.flatMap fun entry => entry.2.available

theorem bucket_setBucket_self : (pool.setBucket key b).bucket key = b := by
  rw [bucket, setBucket, AList.lookup_insert]
  rfl

theorem bucket_setBucket_ne (h : k ≠ key) : (pool.setBucket key b).bucket k = pool.bucket k := by
  rw [bucket, setBucket, AList.lookup_insert_ne h]
  rfl

variable (pool)

theorem idle_perm (key : RpcEndpoint) :
    pool.idle.Perm ((pool.bucket key).available ++
      (pool.buckets.entries.kerase key).flatMap fun entry => entry.2.available) := by
  rcases Classical.em (key ∈ pool.buckets.entries.keys) with hmem | hmem
  · obtain ⟨b, front, back, hfront, hents, hkerase⟩ := exists_of_kerase hmem
    have hlook : pool.buckets.lookup key = some b := by
      apply AList.mem_lookup_iff.2
      rw [hents]
      exact mem_append_right _ (mem_cons_self ..)
    rw [idle, bucket, hlook, hkerase, hents, flatMap_append, flatMap_cons, flatMap_append]
    exact perm_append_comm_assoc _ _ _
  have hlook : pool.buckets.lookup key = none := AList.lookup_eq_none.2 hmem
  rw [bucket, hlook, kerase_of_notMem_keys hmem]
  exact .refl _

theorem idle_setBucket_perm (key : RpcEndpoint) (b : EndpointBucket ι) :
    (pool.setBucket key b).idle.Perm (b.available ++
      (pool.buckets.entries.kerase key).flatMap fun entry => entry.2.available) :=
  .refl _

variable {pool}

/-- The pool with another bucket and another next id. -/
structure Changed (pool : RpcConnectionPool ι) (key : RpcEndpoint) (b : EndpointBucket ι) (n : Nat)
    (pool' : RpcConnectionPool ι) : Prop where
  bucket_self : pool'.bucket key = b
  bucket_ne : ∀ k ≠ key, pool'.bucket k = pool.bucket k
  idle : ∃ rest, pool.idle.Perm ((pool.bucket key).available ++ rest) ∧
    pool'.idle.Perm (b.available ++ rest)
  nextId : pool'.nextId = n
  config : pool'.config = pool.config
  shutDown : pool'.shutDown = pool.shutDown

theorem Changed.refl (pool : RpcConnectionPool ι) (key : RpcEndpoint) :
    Changed pool key (pool.bucket key) pool.nextId pool :=
  ⟨rfl, fun _ _ => rfl, ⟨_, pool.idle_perm key, pool.idle_perm key⟩, rfl, rfl, rfl⟩

theorem Changed.trans (h : Changed pool key b n pool') (h' : Changed pool' key b' n' pool'') :
    Changed pool key b' n' pool'' where
  __ := h'
  bucket_ne k hk := (h'.bucket_ne k hk).trans (h.bucket_ne k hk)
  idle := by
    obtain ⟨rest, hbefore, hmiddle⟩ := h.idle
    obtain ⟨rest', hmiddle', hafter⟩ := h'.idle
    rw [h.bucket_self] at hmiddle'
    have hrest := (perm_append_left_iff _).1 (hmiddle.symm.trans hmiddle')
    exact ⟨rest, hbefore, hafter.trans (hrest.symm.append_left _)⟩
  config := h'.config.trans h.config
  shutDown := h'.shutDown.trans h.shutDown

theorem changed_setBucket (pool : RpcConnectionPool ι) (key : RpcEndpoint) (b : EndpointBucket ι) :
    Changed pool key b pool.nextId (pool.setBucket key b) :=
  ⟨bucket_setBucket_self, fun _ hk => bucket_setBucket_ne hk,
    ⟨_, pool.idle_perm key, pool.idle_setBucket_perm key b⟩, rfl, rfl, rfl⟩

section

variable (h : Changed pool key b n pool')
include h

theorem Changed.counted (n' : Nat) :
    Changed pool key b n' { pool' with nextId := n' } :=
  { h with nextId := rfl }

theorem Changed.pointed (lastBucket : Option RpcEndpoint) :
    Changed pool key b n { pool' with lastBucket } :=
  { h with }

theorem Changed.idle_same (havail : b.available = (pool.bucket key).available) :
    pool'.idle.Perm pool.idle := by
  obtain ⟨rest, hbefore, hafter⟩ := h.idle
  rw [havail] at hafter
  exact hafter.trans hbefore.symm

theorem Changed.idle_taken (havail : (pool.bucket key).available = connection :: b.available) :
    pool.idle.Perm (connection :: pool'.idle) := by
  obtain ⟨rest, hbefore, hafter⟩ := h.idle
  rw [havail] at hbefore
  exact hbefore.trans (hafter.symm.cons connection)

theorem Changed.idle_returned
    (havail : b.available = (pool.bucket key).available ++ [connection]) :
    pool'.idle.Perm (connection :: pool.idle) := by
  obtain ⟨rest, hbefore, hafter⟩ := h.idle
  rw [havail, append_assoc] at hafter
  exact hafter.trans (List.perm_middle.trans (hbefore.symm.cons connection))

end

/-- Every node is that of its key. -/
def Keyed (pool : RpcConnectionPool ι) : Prop := ∀ key, (pool.bucket key).endpoint = key

section

variable (hkeyed : pool.Keyed)

include hkeyed

theorem Keyed.changed (h : Changed pool key b n pool') (hb : b.endpoint = key) : pool'.Keyed:= by
  intro k
  rcases eq_or_ne k key with rfl | hk
  · rw [h.bucket_self]
    exact hb
  rw [h.bucket_ne k hk]
  exact hkeyed k

theorem Keyed.cached (h : pool.cached endpoint = some key) :
    key = endpoint := by
  obtain ⟨-, hkey⟩ := Option.filter_eq_some_iff.1 h
  exact (hkeyed key).symm.trans (of_decide_eq_true hkey)

/-- A new node is empty, as a node that is not there. -/
theorem Keyed.bucketFor (endpoint : RpcEndpoint) :
    (pool.bucketFor endpoint).1 = endpoint ∧
      Changed pool endpoint (pool.bucket endpoint) pool.nextId (pool.bucketFor endpoint).2 := by
  rw [RpcConnectionPool.bucketFor]
  split
  · next key hcached =>
    obtain rfl := hkeyed.cached hcached
    exact ⟨rfl, Changed.refl pool key⟩
  refine ⟨rfl, ?_⟩
  dsimp only
  split
  · next hmem => exact (Changed.refl pool endpoint).pointed _
  next hmem =>
  have hbucket : pool.bucket endpoint = { endpoint } := by
    rw [bucket, AList.lookup_eq_none.2 hmem]
    rfl
  rw [hbucket]
  exact (changed_setBucket pool endpoint { endpoint }).pointed _

theorem Keyed.findBucketMutable (endpoint : RpcEndpoint) :
    (∃ pool', pool.findBucketMutable endpoint = (some endpoint, pool') ∧
      Changed pool endpoint (pool.bucket endpoint) pool.nextId pool') ∨
    pool.findBucketMutable endpoint = (none, pool) ∧ pool.bucket endpoint = { endpoint } := by
  rw [RpcConnectionPool.findBucketMutable]
  split
  · next key hcached =>
    obtain rfl := hkeyed.cached hcached
    exact .inl ⟨pool, rfl, Changed.refl pool key⟩
  split
  · exact .inl ⟨_, rfl, (Changed.refl pool endpoint).pointed _⟩
  next hmem =>
  refine .inr ⟨rfl, ?_⟩
  rw [bucket, AList.lookup_eq_none.2 hmem]
  rfl

end

/-! ## Acquiring -/

/-- How `acquire` can go. -/
inductive Acquired (pool : RpcConnectionPool ι) (i : ι) (endpoint : RpcEndpoint) :
    Option RpcPoolAcquireResult → RpcConnectionPool ι → Prop
  | taken {pool' : RpcConnectionPool ι} {connection : RpcPooledConnection}
    {available : List RpcPooledConnection}
    (hopen : pool.shutDown = false)
    (havail : (pool.bucket endpoint).available = connection :: available)
    (hchanged : Changed pool endpoint { pool.bucket endpoint with
      available, inUse := (pool.bucket endpoint).inUse + 1 } pool.nextId pool') :
    Acquired pool i endpoint (some (.ok connection)) pool'
  | created {pool' : RpcConnectionPool ι} (hopen : pool.shutDown = false)
    (havail : (pool.bucket endpoint).available = [])
    (hroom : (pool.bucket endpoint).total < pool.config.maxConnectionsPerEndpoint)
    (hchanged : Changed pool endpoint { pool.bucket endpoint with
      total := (pool.bucket endpoint).total + 1, inUse := (pool.bucket endpoint).inUse + 1 }
      (pool.nextId + 1) pool') :
    Acquired pool i endpoint (some (.ok (freshConnection endpoint pool.nextId))) pool'
  | refused {pool' : RpcConnectionPool ι} {error : RpcError}
    (hwhy : isValidEndpoint endpoint = false ∨ pool.shutDown = true ∨
      pool.config.maxConnectionsPerEndpoint ≤ (pool.bucket endpoint).total)
    (hchanged : Changed pool endpoint (pool.bucket endpoint) pool.nextId pool') :
    Acquired pool i endpoint (some (.error error)) pool'
  | queued {pool' : RpcConnectionPool ι} (hopen : pool.shutDown = false)
    (havail : (pool.bucket endpoint).available = [])
    (hfull : pool.config.maxConnectionsPerEndpoint ≤ (pool.bucket endpoint).total)
    (hfew : (pool.bucket endpoint).waiters.length < pool.config.maxWaitersPerEndpoint)
    (hchanged : Changed pool endpoint { pool.bucket endpoint with
      waiters := (pool.bucket endpoint).waiters ++ [i] } pool.nextId pool') :
    Acquired pool i endpoint none pool'

/-- How `tryAcquire` can go. -/
inductive Tried (pool : RpcConnectionPool ι) (endpoint : RpcEndpoint) :
    RpcPoolAcquireResult → RpcConnectionPool ι → Prop
  | acquired {pool' : RpcConnectionPool ι} {connection : RpcPooledConnection}
    (h : ∀ i, Acquired pool i endpoint (some (.ok connection)) pool') :
    Tried pool endpoint (.ok connection) pool'
  | refused {error : RpcError} (herr : error.code ≠ .RESOURCE_EXHAUSTED)
    (hwhy : isValidEndpoint endpoint = false ∨ pool.shutDown = true) :
    Tried pool endpoint (.error error) pool
  | exhausted {pool' : RpcConnectionPool ι} (hopen : pool.shutDown = false)
    (havail : (pool.bucket endpoint).available = [])
    (hfull : pool.config.maxConnectionsPerEndpoint ≤ (pool.bucket endpoint).total)
    (hchanged : Changed pool endpoint (pool.bucket endpoint) pool.nextId pool') :
    Tried pool endpoint (.error poolExhausted) pool'

theorem Keyed.tryAcquire (hkeyed : pool.Keyed) (endpoint : RpcEndpoint) :
    Tried pool endpoint (pool.tryAcquire endpoint).1 (pool.tryAcquire endpoint).2 := by
  rw [RpcConnectionPool.tryAcquire]
  split
  · next hvalid => exact .refused (by decide) (.inl (Bool.eq_false_iff.2 hvalid))
  split
  · next hshut => exact .refused (by decide) (.inr hshut)
  next hopen =>
  have hopen := Bool.eq_false_iff.2 hopen
  obtain ⟨hkey, hchanged⟩ := hkeyed.bucketFor endpoint
  dsimp only
  rw [hkey, hchanged.bucket_self]
  split
  · next connection available havail =>
    exact .acquired fun i => .taken hopen havail
      (hchanged.nextId ▸ hchanged.trans (changed_setBucket _ endpoint _))
  next havail =>
  split
  · next hroom =>
    rw [hchanged.config] at hroom
    have hset := hchanged.trans (changed_setBucket _ endpoint { pool.bucket endpoint with
      total := (pool.bucket endpoint).total + 1, inUse := (pool.bucket endpoint).inUse + 1 })
    have hid := hchanged.nextId
    dsimp only [newConnection, setBucket] at hset ⊢
    rw [hid]
    exact .acquired fun i => .created hopen havail hroom (hset.counted (pool.nextId + 1))
  next hfull =>
  rw [hchanged.config] at hfull
  exact .exhausted hopen havail (Nat.not_lt.1 hfull) hchanged

theorem Keyed.acquire (hkeyed : pool.Keyed) (i : ι) (endpoint : RpcEndpoint) :
    Acquired pool i endpoint (pool.acquire i endpoint).1 (pool.acquire i endpoint).2 := by
  have htried := hkeyed.tryAcquire endpoint
  rw [RpcConnectionPool.acquire]
  generalize pool.tryAcquire endpoint = tried at htried ⊢
  obtain ⟨result, pool'⟩ := tried
  dsimp only at htried
  cases htried with
  | acquired h => exact h i
  | refused herr hwhy =>
    dsimp only
    rw [if_pos herr]
    exact .refused (hwhy.imp_right .inl) (Changed.refl pool endpoint)
  | exhausted hopen havail hfull hchanged =>
  have hkeyed' := hkeyed.changed hchanged (hkeyed endpoint)
  obtain ⟨hkey, hchanged'⟩ := hkeyed'.bucketFor endpoint
  rw [hchanged.bucket_self, hchanged.nextId] at hchanged'
  have hboth := hchanged.trans hchanged'
  dsimp only
  rw [if_neg (by decide), hkey, hboth.bucket_self, hboth.config]
  split
  · exact .refused (.inr (.inr hfull)) hboth
  next hfew =>
  exact .queued hopen havail hfull (Nat.not_le.1 hfew)
    (hboth.nextId ▸ hboth.trans (changed_setBucket _ endpoint _))

/-! ## Releasing -/

/-- How `release` can go with a valid connection. -/
inductive Released (pool : RpcConnectionPool ι) (connection : RpcPooledConnection) :
    List (ι × RpcPoolAcquireResult) → RpcConnectionPool ι → Prop
  | unknown (hbucket : pool.bucket connection.endpoint = { endpoint := connection.endpoint }) :
    Released pool connection [] pool
  | late {pool' : RpcConnectionPool ι} (hshut : pool.shutDown = true)
    (hchanged : Changed pool connection.endpoint { pool.bucket connection.endpoint with
      inUse := (pool.bucket connection.endpoint).inUse - 1
      total := (pool.bucket connection.endpoint).total - 1 } pool.nextId pool') :
    Released pool connection [] pool'
  | dropped {pool' : RpcConnectionPool ι} (hopen : pool.shutDown = false)
    (hbroken : connection.broken = true)
    (hwaiters : (pool.bucket connection.endpoint).waiters = [] ∨
      pool.config.maxConnectionsPerEndpoint ≤ (pool.bucket connection.endpoint).total - 1)
    (hchanged : Changed pool connection.endpoint { pool.bucket connection.endpoint with
      inUse := (pool.bucket connection.endpoint).inUse - 1
      total := (pool.bucket connection.endpoint).total - 1 } pool.nextId pool') :
    Released pool connection [] pool'
  | replaced {pool' : RpcConnectionPool ι} {j : ι} {waiters : List ι}
    (hopen : pool.shutDown = false) (hbroken : connection.broken = true)
    (hwaiters : (pool.bucket connection.endpoint).waiters = j :: waiters)
    (hchanged : Changed pool connection.endpoint { pool.bucket connection.endpoint with
      waiters
      inUse := (pool.bucket connection.endpoint).inUse - 1 + 1
      total := (pool.bucket connection.endpoint).total - 1 + 1 } (pool.nextId + 1) pool') :
    Released pool connection [(j, .ok (freshConnection connection.endpoint pool.nextId))] pool'
  | passed {pool' : RpcConnectionPool ι} {j : ι} {waiters : List ι}
    (hopen : pool.shutDown = false) (hwhole : connection.broken = false)
    (hwaiters : (pool.bucket connection.endpoint).waiters = j :: waiters)
    (hchanged : Changed pool connection.endpoint { pool.bucket connection.endpoint with
      waiters, inUse := (pool.bucket connection.endpoint).inUse - 1 + 1 } pool.nextId pool') :
    Released pool connection [(j, .ok connection)] pool'
  | returned {pool' : RpcConnectionPool ι} (hopen : pool.shutDown = false)
    (hwhole : connection.broken = false)
    (hwaiters : (pool.bucket connection.endpoint).waiters = [])
    (hchanged : Changed pool connection.endpoint { pool.bucket connection.endpoint with
      available := (pool.bucket connection.endpoint).available ++ [connection]
      inUse := (pool.bucket connection.endpoint).inUse - 1 } pool.nextId pool') :
    Released pool connection [] pool'

variable (b)

/-- The tests before the decrements are those of `Nat`. -/
theorem pred_inUse :
    (if b.inUse > 0 then { b with inUse := b.inUse - 1 } else b) =
      { b with inUse := b.inUse - 1 } := by
  split
  · rfl
  next hzero =>
  have hpred : b.inUse - 1 = b.inUse := by omega
  rw [hpred]

theorem pred_total :
    (if b.total > 0 then { b with total := b.total - 1 } else b) =
      { b with total := b.total - 1 } := by
  split
  · rfl
  next hzero =>
  have hpred : b.total - 1 = b.total := by omega
  rw [hpred]

theorem Keyed.release (hkeyed : pool.Keyed) (hvalid : connection.valid = true) :
    Released pool connection (pool.release connection).2.1 (pool.release connection).2.2 := by
  rw [RpcConnectionPool.release, if_neg (by rw [hvalid]; exact nofun)]
  rcases hkeyed.findBucketMutable connection.endpoint with
    ⟨pool', hfind, hchanged⟩ | ⟨hfind, hbucket⟩
  · rw [hfind]
    dsimp only
    rw [hchanged.bucket_self, pred_inUse, pred_total]
    split
    · next hshut =>
      exact .late (hchanged.shutDown.symm.trans hshut)
        (hchanged.nextId ▸ hchanged.trans (changed_setBucket _ _ _))
    next hopen =>
    have hopen := hchanged.shutDown.symm.trans (Bool.eq_false_iff.2 hopen)
    split
    · next hbroken =>
      have hset := hchanged.trans (changed_setBucket _ connection.endpoint
        { pool.bucket connection.endpoint with
          inUse := (pool.bucket connection.endpoint).inUse - 1
          total := (pool.bucket connection.endpoint).total - 1 })
      generalize pool'.setBucket connection.endpoint _ = pool'' at hset ⊢
      have hid := hset.nextId.trans hchanged.nextId
      have hstay := hset
      rw [hchanged.nextId] at hstay
      have hopen' := hset.shutDown.trans hopen
      rw [wakeNextWaiter, hset.bucket_self]
      dsimp only
      split
      · next hwaiters => exact .dropped hopen hbroken (.inl hwaiters) hstay
      next j waiters hwaiters =>
      rw [if_neg (by rw [hopen']; exact nofun), hset.config]
      split
      · next hfull => exact .dropped hopen hbroken (.inr hfull) hstay
      have hnew := hset.trans (changed_setBucket _ connection.endpoint
        { pool.bucket connection.endpoint with
          waiters
          inUse := (pool.bucket connection.endpoint).inUse - 1 + 1
          total := (pool.bucket connection.endpoint).total - 1 + 1 })
      have hfresh : freshConnection (pool.bucket connection.endpoint).endpoint pool''.nextId =
          freshConnection connection.endpoint pool.nextId := by
        rw [hkeyed, hid]
      dsimp only [newConnection, setBucket] at hnew ⊢
      rw [hfresh, hid]
      exact .replaced hopen hbroken hwaiters (hnew.counted (pool.nextId + 1))
    next hwhole =>
    have hwhole := Bool.eq_false_iff.2 hwhole
    have hset := hchanged.trans (changed_setBucket _ connection.endpoint
      { pool.bucket connection.endpoint with
        inUse := (pool.bucket connection.endpoint).inUse - 1 })
    generalize pool'.setBucket connection.endpoint _ = pool'' at hset ⊢
    have hid := hset.nextId.trans hchanged.nextId
    rw [passOn, hset.bucket_self]
    dsimp only
    split
    · next j waiters hwaiters =>
      exact .passed hopen hwhole hwaiters (hid ▸ hset.trans (changed_setBucket _ _ _))
    next hwaiters =>
    exact .returned hopen hwhole hwaiters (hid ▸ hset.trans (changed_setBucket _ _ _))
  rw [hfind]
  exact .unknown hbucket

end RpcConnectionPool

end Galay.Rpc
