import Galay.Rpc.ConnectionPoolInvariant

/-!
# Runs of a connection pool

The invariant holds after every event, so after every run. After the shutdown nothing is handed out
any more. The ids are different only as long as the counter has not wrapped around: a run that opens
2^64 connections gives two calls the same id.
-/

namespace Galay.Rpc

open List
open RpcConnectionPool

namespace RpcConnectionPool

variable {pool : RpcConnectionPool ι}

theorem warmUp_induction {config : RpcConnectionPoolConfig} {P : EndpointBucket ι → Nat → Prop}
    (hstep : ∀ b n, b.total < config.maxConnectionsPerEndpoint → P b n →
      P { b with available := b.available ++ [freshConnection endpoint n], total := b.total + 1 }
        (n + 1)) (h : P b n) : P (warmUp config endpoint b n).1 (warmUp config endpoint b n).2 := by
  induction b, n using warmUp.induct config endpoint with
  | case1 b n hroom ih =>
    rw [warmUp, if_pos hroom]
    exact ih (hstep b n hroom.2 h)
  | case2 b n hroom =>
  rw [warmUp, if_neg hroom]
  exact h

variable (pool)

theorem changed_again (key : RpcEndpoint) (b b' : EndpointBucket ι) (n n' : Nat) :
    Changed ({ pool with nextId := n }.setBucket key b) key b' n'
      ({ pool with nextId := n' }.setBucket key b') where
  bucket_self := bucket_setBucket_self
  bucket_ne k hk := by
    rw [bucket_setBucket_ne hk, bucket_setBucket_ne hk]
    rfl
  idle := by
    refine ⟨_, ?_, pool.idle_setBucket_perm key b'⟩
    rw [bucket_setBucket_self]
    exact pool.idle_setBucket_perm key b
  nextId := rfl
  config := rfl
  shutDown := rfl

/-- The pool as the shutdown leaves it. -/
def emptied : RpcConnectionPool ι :=
  { pool with
    shutDown := true
    buckets := Lib.mapValues (fun bucket => { endpoint := bucket.endpoint }) pool.buckets }

variable {pool}

theorem bucket_emptied (hkeyed : pool.Keyed) (key : RpcEndpoint) :
    pool.emptied.bucket key = { endpoint := key } := by
  have hkey := hkeyed key
  rw [bucket] at hkey
  rw [bucket, emptied, Lib.lookup_mapValues]
  cases hlook : pool.buckets.lookup key with
  | none => rfl
  | some b =>
  rw [hlook] at hkey
  exact congrArg (fun endpoint => ({ endpoint } : EndpointBucket ι)) hkey

theorem idle_emptied (pool : RpcConnectionPool ι) : pool.emptied.idle = [] := by
  apply List.flatMap_eq_nil_iff.2
  intro entry hentry
  obtain ⟨_, -, rfl⟩ := List.mem_map.1 hentry
  rfl

end RpcConnectionPool

namespace PoolState

variable [DecidableEq ι] {s s' : PoolState ι} {i : ι}

/-! ## One event -/

omit [DecidableEq ι] in
theorem inv_start (config : RpcConnectionPoolConfig) : Inv (start config : PoolState ι) where
  ledger := ⟨nofun, nofun, nodup_nil, nofun, nofun, fun _ => prefix_rfl⟩
  keyed _ := rfl
  available _ := nofun
  balanced _ := Balanced.empty
  emptied := nofun
  unique := ⟨nofun, fun _ => nodup_nil⟩

omit [DecidableEq ι] in
/-- A connection more in the free list. -/
theorem Inv.warmed {pool : RpcConnectionPool ι}
    (H : Inv { s with pool := { pool with nextId := n }.setBucket endpoint b })
    (hopen : pool.shutDown = false) (hroom : b.total < pool.config.maxConnectionsPerEndpoint) :
    Inv { s with pool := { pool with nextId := n + 1 }.setBucket endpoint { b with
      available := b.available ++ [freshConnection endpoint n], total := b.total + 1 } } := by
  have hchanged := changed_again pool endpoint b { b with
      available := b.available ++ [freshConnection endpoint n], total := b.total + 1 } n (n + 1)
  have hbucket : ({ pool with nextId := n }.setBucket endpoint b).bucket endpoint = b :=
    bucket_setBucket_self
  have hkey := H.keyed endpoint
  have havail := H.available endpoint
  have hbalanced := H.balanced hopen endpoint
  rw [hbucket] at hkey havail hbalanced
  refine H.of_changed hchanged (H.ledger.withPool rfl) hkey (fun connection hc => ?_)
    (fun _ => hbalanced.warmed hroom) (fun k hk => ⟨rfl, rfl, rfl⟩) (fun hshut => ?_) ?_
  · rcases List.mem_append.1 hc with hc | hc
    · exact havail connection hc
    rw [List.mem_singleton.1 hc]
    exact ⟨rfl, rfl⟩
  · exact absurd (hopen.symm.trans hshut) nofun
  have hidle := ((hchanged.idle_returned (by rw [hbucket])).map
    RpcPooledConnection.id).append_left (s.leases.map fun lease => lease.2.id)
  exact H.unique.cons.perm (hidle.trans perm_middle)

omit [DecidableEq ι] in
theorem Inv.ensureEndpoint (H : Inv s) (endpoint : RpcEndpoint) :
    Inv { s with pool := (s.pool.ensureEndpoint endpoint).2 } := by
  rw [RpcConnectionPool.ensureEndpoint]
  split
  · exact H
  split
  · exact H
  next hopen =>
  have hopen := Bool.eq_false_iff.2 hopen
  obtain ⟨hkey, hchanged⟩ := H.keyed.bucketFor endpoint
  dsimp only
  rw [hkey, hchanged.bucket_self, hchanged.nextId]
  generalize (s.pool.bucketFor endpoint).2 = pool at hchanged ⊢
  have hset := hchanged.trans (changed_setBucket pool endpoint (s.pool.bucket endpoint))
  have hbegin : Inv { s with pool :=
      { pool with nextId := s.pool.nextId }.setBucket endpoint (s.pool.bucket endpoint) } :=
    H.of_changed (hset.counted s.pool.nextId) (H.ledger.withPool hset.shutDown)
      (H.keyed endpoint) (H.available endpoint) (fun hopen => H.balanced hopen endpoint)
      (fun k hk => ⟨rfl, rfl, rfl⟩) (fun hshut => H.emptied hshut endpoint)
      (H.unique.perm (ids_perm rfl (hset.idle_same rfl)))
  have hstep (b : EndpointBucket ι) (n : Nat)
      (hroom : b.total < pool.config.maxConnectionsPerEndpoint)
      (hinv : Inv { s with pool := { pool with nextId := n }.setBucket endpoint b }) :=
    hinv.warmed (hchanged.shutDown.trans hopen) hroom
  exact warmUp_induction (P := fun (b : EndpointBucket ι) (n : Nat) =>
    Inv { s with pool := { pool with nextId := n }.setBucket endpoint b }) hstep hbegin

theorem Inv.resume (H : Inv s)
    (hcall : s.calls i = .notified result) : Inv (s.setCall i (.returned result)) where
  __ := H
  ledger := by
    have hne : AcquireCall.returned result ≠ .idle := nofun
    have hres : (AcquireCall.returned result).result = (s.calls i).result := by
      rw [hcall]
      rfl
    have hwaiting : s.calls i ≠ .waiting := by
      rw [hcall]
      exact nofun
    exact H.ledger.setCall hne (fun _ => hres) hwaiting

theorem foldl_notify_closed {notes : List (ι × RpcPoolAcquireResult)}
    (hclosed : ∀ note ∈ notes, note.2 = .error closed) :
    notes.foldl notify s = { s with
      calls := fun i => if i ∈ notes.map Prod.fst then .notified (.error closed) else s.calls i } := by
  induction notes generalizing s with
  | nil => rfl
  | cons note notes ih =>
  obtain ⟨hnote, hnotes⟩ := List.forall_mem_cons.1 hclosed
  obtain ⟨i, result⟩ := note
  obtain rfl : result = .error closed := hnote
  rw [foldl_cons, ih hnotes]
  have hcalls : (fun j => if j ∈ notes.map Prod.fst then AcquireCall.notified (.error closed)
        else (s.notify (i, .error closed)).calls j) =
      fun j => if j ∈ ((i, Except.error closed) :: notes).map Prod.fst then
        AcquireCall.notified (.error closed) else s.calls j := by
    funext j
    rw [map_cons]
    rcases eq_or_ne j i with rfl | hne
    · have hself : (s.notify (j, .error closed)).calls j = .notified (.error closed) :=
        Function.update_self ..
      rw [hself, ite_self, if_pos (mem_cons_self ..)]
    have hother : (s.notify (i, .error closed)).calls j = s.calls j :=
      Function.update_of_ne hne ..
    rw [hother]
    exact if_congr ⟨mem_cons_of_mem _, fun h => (List.mem_cons.1 h).resolve_left hne⟩ rfl rfl
  exact congrArg (fun calls => ({ s with calls } : PoolState ι)) hcalls

theorem Ledger.close (h : Ledger s) {waiters : List ι} {pool : RpcConnectionPool ι}
    (hwaiting : ∀ i ∈ waiters, s.calls i = .waiting)
    (hall : ∀ arrival ∈ s.arrivals, s.calls arrival.2 = .waiting → arrival.2 ∈ waiters)
    (hshut : pool.shutDown = true) :
    Ledger { s with pool, calls := fun i =>
      if i ∈ waiters then .notified (.error closed) else s.calls i } := by
  have hkept (i : ι) (hi : (s.calls i).result ≠ none) : i ∉ waiters := by
    intro hmem
    rw [hwaiting i hmem] at hi
    exact hi rfl
  refine ⟨fun lease hlease => ?_, fun grant hgrant => ?_, h.arrivedOnce, fun arrival harrival => ?_,
    fun arrival harrival => ?_, h.order⟩
  · obtain ⟨hvalid, hcalls⟩ := h.leased lease hlease
    have hnot := hkept lease.1 (by rw [hcalls]; exact nofun)
    exact ⟨hvalid, (congrArg _ (if_neg hnot)).trans hcalls⟩
  · have hcalls := h.granted grant hgrant
    have hnot := hkept grant.1 (by rw [hcalls]; exact nofun)
    exact (congrArg _ (if_neg hnot)).trans hcalls
  · dsimp only
    split
    · exact nofun
    exact h.started arrival harrival
  rcases h.answered arrival harrival with ⟨-, hwaits⟩ | hgranted | ⟨-, hclosed⟩
  · exact .inr (.inr ⟨hshut, congrArg _ (if_pos (hall arrival harrival hwaits))⟩)
  · exact .inr (.inl hgranted)
  have hnot := hkept arrival.2 (by rw [hclosed]; exact nofun)
  exact .inr (.inr ⟨hshut, (congrArg _ (if_neg hnot)).trans hclosed⟩)

omit [DecidableEq ι] in
theorem mem_waiters {pool : RpcConnectionPool ι} :
    i ∈ (pool.buckets.entries.flatMap fun entry => entry.2.waiters) ↔
      ∃ key, i ∈ (pool.bucket key).waiters := by
  constructor
  · intro hmem
    obtain ⟨entry, hentry, hi⟩ := List.mem_flatMap.1 hmem
    refine ⟨entry.1, ?_⟩
    rw [bucket, AList.mem_lookup_iff.2 hentry]
    exact hi
  rintro ⟨key, hi⟩
  rw [bucket] at hi
  cases hlook : pool.buckets.lookup key with
  | none =>
    rw [hlook] at hi
    cases hi
  | some b =>
  rw [hlook] at hi
  exact List.mem_flatMap.2 ⟨⟨key, b⟩, AList.mem_lookup_iff.1 hlook, hi⟩

omit [DecidableEq ι] in
theorem Inv.queue_of_waiting (H : Inv s) (hopen : s.pool.shutDown = false)
    (harrival : arrival ∈ s.arrivals)
    (hwaits : s.calls arrival.2 = .waiting) : arrival.2 ∈ (s.pool.bucket arrival.1).waiters := by
  have harrived : arrival.2 ∈ s.arrivedAt arrival.1 := mem_arrivedAt.2 harrival
  rw [(H.balanced hopen arrival.1).order] at harrived
  rcases List.mem_append.1 harrived with hgranted | hwaiter
  · obtain ⟨grant, hgrant, hi⟩ := List.mem_map.1 hgranted
    have hcalls := H.ledger.granted grant (List.mem_filter.1 hgrant).1
    rw [hi, hwaits] at hcalls
    cases hcalls
  exact hwaiter

/-- Every waiter is told that the pool is closed. -/
theorem Inv.shutdown (H : Inv s) :
    Inv ((s.pool.shutdown).1.foldl notify { s with pool := (s.pool.shutdown).2 }) := by
  rw [RpcConnectionPool.shutdown]
  split
  · exact H
  next hopen =>
  have hopen := Bool.eq_false_iff.2 hopen
  have hclosed : ∀ note ∈ s.pool.buckets.entries.flatMap fun entry =>
      entry.2.waiters.map fun i => (i, (.error closed : RpcPoolAcquireResult)),
      note.2 = .error closed := by
    intro note hnote
    obtain ⟨entry, -, hentry⟩ := List.mem_flatMap.1 hnote
    obtain ⟨i, -, rfl⟩ := List.mem_map.1 hentry
    rfl
  have hnames : (s.pool.buckets.entries.flatMap fun entry =>
      entry.2.waiters.map fun i => (i, (.error closed : RpcPoolAcquireResult))).map Prod.fst =
      s.pool.buckets.entries.flatMap fun entry => entry.2.waiters := by
    rw [map_flatMap]
    simp only [map_map, Function.comp_def, map_id']
  dsimp only
  rw [foldl_notify_closed hclosed, hnames]
  refine ⟨H.ledger.close (fun i hi => ?_) (fun arrival harrival hwaits => ?_) rfl, fun key => ?_,
    fun key => ?_, nofun, fun _ => bucket_emptied H.keyed, ?_⟩
  · obtain ⟨key, hi⟩ := mem_waiters.1 hi
    exact H.waiting hopen hi
  · exact mem_waiters.2 ⟨arrival.1, H.queue_of_waiting hopen harrival hwaits⟩
  · exact congrArg EndpointBucket.endpoint (bucket_emptied H.keyed key)
  · show ∀ connection ∈ (s.pool.emptied.bucket key).available, _
    rw [bucket_emptied H.keyed]
    exact nofun
  have hidle := s.pool.idle_emptied
  apply H.unique.sublist
  show (s.leases.map (fun lease => lease.2.id) ++
    s.pool.emptied.idle.map RpcPooledConnection.id).Sublist _
  rw [hidle, map_nil, append_nil]
  exact sublist_append_left _ _

theorem Inv.release_cases (H : Inv s) (h : s.step (.release i broken) = some s') :
    ∃ connection notes pool, (i, connection) ∈ s.leases ∧
      Released s.pool { connection with broken := connection.broken || broken } notes pool ∧
      s' = notes.foldl notify { s with leases := s.leases.erase (i, connection), pool } := by
  rw [PoolState.step] at h
  split at h
  · next connection hcall =>
    split at h
    · next hmem =>
      have hvalid : ({ connection with
          broken := connection.broken || broken } : RpcPooledConnection).valid = true :=
        (H.ledger.leased _ hmem).1
      exact ⟨connection, _, _, hmem, H.keyed.release hvalid, (Option.some.inj h).symm⟩
    cases h
  cases h

theorem Inv.step (H : Inv s) (h : s.step event = some s') : Inv s' := by
  cases event with
  | ensureEndpoint endpoint =>
    obtain rfl := Option.some.inj h
    exact H.ensureEndpoint endpoint
  | acquire i endpoint =>
    have hacquired := H.keyed.acquire i endpoint
    rw [PoolState.step] at h
    split at h
    · next hidle =>
      generalize s.pool.acquire i endpoint = outcome at h hacquired
      obtain ⟨result, pool⟩ := outcome
      cases result with
      | none =>
        obtain rfl := Option.some.inj h
        exact H.queued hidle hacquired
      | some result =>
      obtain rfl := Option.some.inj h
      cases result with
      | ok connection => exact H.acquired hidle hacquired
      | error error => exact H.refused hidle hacquired
    cases h
  | resume i =>
    rw [PoolState.step] at h
    split at h
    · next result hcall =>
      obtain rfl := Option.some.inj h
      exact H.resume hcall
    cases h
  | release i broken =>
    obtain ⟨connection, notes, pool, hmem, hreleased, rfl⟩ := H.release_cases h
    exact H.released hmem hreleased
  | shutdown =>
  obtain rfl := Option.some.inj h
  exact H.shutdown

/-! ## After the shutdown -/

theorem late_step (H : Inv s) (hshut : s.pool.shutDown = true) (h : s.step event = some s') :
    s'.pool.shutDown = true ∧ s'.leases.Sublist s.leases ∧ s'.grants = s.grants := by
  cases event with
  | ensureEndpoint endpoint =>
    obtain rfl := Option.some.inj h
    rw [RpcConnectionPool.ensureEndpoint, if_pos hshut]
    split
    · exact ⟨hshut, .refl _, rfl⟩
    exact ⟨hshut, .refl _, rfl⟩
  | acquire i endpoint =>
    have hacquired := H.keyed.acquire i endpoint
    rw [PoolState.step] at h
    split at h
    · generalize s.pool.acquire i endpoint = outcome at h hacquired
      obtain ⟨result, pool⟩ := outcome
      dsimp only at hacquired
      cases hacquired with
      | taken hopen | created hopen | queued hopen =>
        rw [hshut] at hopen
        cases hopen
      | refused _ hchanged =>
      obtain rfl := Option.some.inj h
      exact ⟨hchanged.shutDown.trans hshut, .refl _, rfl⟩
    cases h
  | resume i =>
    rw [PoolState.step] at h
    split at h
    · obtain rfl := Option.some.inj h
      exact ⟨hshut, .refl _, rfl⟩
    cases h
  | release i broken =>
    obtain ⟨connection, notes, pool, -, hreleased, rfl⟩ := H.release_cases h
    cases hreleased with
    | unknown => exact ⟨hshut, erase_sublist, rfl⟩
    | late _ hchanged => exact ⟨hchanged.shutDown.trans hshut, erase_sublist, rfl⟩
    | dropped hopen | replaced hopen | passed hopen | returned hopen =>
    rw [hshut] at hopen
    cases hopen
  | shutdown =>
  have hsame : s.pool.shutdown = ([], s.pool) := if_pos hshut
  rw [PoolState.step, hsame] at h
  obtain rfl := Option.some.inj h
  exact ⟨hshut, .refl _, rfl⟩

theorem late_run (H : Inv s) (hshut : s.pool.shutDown = true)
    (h : s.run events = some s') : s'.leases.Sublist s.leases ∧ s'.grants = s.grants := by
  induction events generalizing s with
  | nil =>
    obtain rfl := Option.some.inj h
    exact ⟨.refl _, rfl⟩
  | cons event events ih =>
  obtain ⟨next, hstep, hrest⟩ := Option.bind_eq_some_iff.1 h
  obtain ⟨hshut', hleases, hgrants⟩ := late_step H hshut hstep
  obtain ⟨hleases', hgrants'⟩ := ih (H.step hstep) hshut' hrest
  exact ⟨hleases'.trans hleases, hgrants'.trans hgrants⟩

/-! ## Runs -/

theorem foldl_notify_pool (notes : List (ι × RpcPoolAcquireResult)) (s : PoolState ι) :
    (notes.foldl notify s).pool = s.pool := by
  induction notes generalizing s with
  | nil => rfl
  | cons note notes ih =>
  obtain ⟨i, result⟩ := note
  rw [foldl_cons, ih]
  cases result <;> rfl

theorem config_step (H : Inv s) (h : s.step event = some s') :
    s'.pool.config = s.pool.config := by
  cases event with
  | ensureEndpoint endpoint =>
    obtain rfl := Option.some.inj h
    rw [RpcConnectionPool.ensureEndpoint]
    split
    · rfl
    split
    · rfl
    exact (H.keyed.bucketFor endpoint).2.config
  | acquire i endpoint =>
    have hacquired := H.keyed.acquire i endpoint
    rw [PoolState.step] at h
    split at h
    · generalize s.pool.acquire i endpoint = outcome at h hacquired
      obtain ⟨result, pool⟩ := outcome
      dsimp only at hacquired
      cases hacquired with
      | taken _ _ hchanged | created _ _ _ hchanged | queued _ _ _ _ hchanged | refused _ hchanged =>
      obtain rfl := Option.some.inj h
      exact hchanged.config
    cases h
  | resume i =>
    rw [PoolState.step] at h
    split at h
    · obtain rfl := Option.some.inj h
      rfl
    cases h
  | release i broken =>
    obtain ⟨connection, notes, pool, -, hreleased, rfl⟩ := H.release_cases h
    rw [foldl_notify_pool]
    cases hreleased with
    | unknown => rfl
    | late _ hchanged | dropped _ _ _ hchanged | replaced _ _ _ hchanged
    | passed _ _ _ hchanged | returned _ _ _ hchanged => exact hchanged.config
  | shutdown =>
  have hconfig : s.pool.shutdown.2.config = s.pool.config := by
    rw [RpcConnectionPool.shutdown]
    split
    · rfl
    rfl
  obtain rfl := Option.some.inj h
  exact (congrArg RpcConnectionPool.config (foldl_notify_pool _ _)).trans hconfig

theorem inv_run (H : Inv s) (h : s.run events = some s') :
    Inv s' ∧ s'.pool.config = s.pool.config := by
  induction events generalizing s with
  | nil =>
    obtain rfl := Option.some.inj h
    exact ⟨H, rfl⟩
  | cons event events ih =>
  obtain ⟨next, hstep, hrest⟩ := Option.bind_eq_some_iff.1 h
  obtain ⟨H', hconfig⟩ := ih (H.step hstep) hrest
  exact ⟨H', hconfig.trans (config_step H hstep)⟩

/-- What is promised of a pool and its callers. -/
structure Sound (config : RpcConnectionPoolConfig) (s : PoolState ι) : Prop where
  /-- The buckets before the shutdown. -/
  buckets : s.pool.shutDown = false → ∀ endpoint bucket,
    s.pool.buckets.lookup endpoint = some bucket →
      bucket.available.length + bucket.inUse = bucket.total ∧
      bucket.inUse = s.leasedAt endpoint ∧
      bucket.total ≤ config.maxConnectionsPerEndpoint ∧
      (bucket.waiters ≠ [] → bucket.available = [] ∧
        bucket.total = config.maxConnectionsPerEndpoint) ∧
      bucket.waiters.length ≤ config.maxWaitersPerEndpoint
  /-- No id is held twice, while the counter has not wrapped around. -/
  ids : s.pool.nextId ≤ 2 ^ 64 → s.ids.Nodup
  /-- The waiters of an endpoint are given connections in the order in which they have come. -/
  order : ∀ endpoint, s.grantedAt endpoint <+: s.arrivedAt endpoint
  /-- Who has waited for an endpoint has a connection to it, or is told that the pool is closed. -/
  answered : s.pool.shutDown = true → ∀ arrival ∈ s.arrivals,
    (∃ connection : RpcPooledConnection, connection.endpoint = arrival.1 ∧
      (s.calls arrival.2).result = some (.ok connection)) ∨
    (s.calls arrival.2).result = some (.error closed)
  /-- The counters stay at zero. -/
  counters : s.pool.shutDown = true → ∀ endpoint bucket,
    s.pool.buckets.lookup endpoint = some bucket → bucket.inUse = 0 ∧ bucket.total = 0

omit [DecidableEq ι] in
theorem Inv.sound (H : Inv s) : Sound s.pool.config s where
  buckets hopen endpoint bucket hlook := by
    have hbalanced := H.balanced hopen endpoint
    rw [RpcConnectionPool.bucket, hlook] at hbalanced
    exact ⟨hbalanced.count, hbalanced.leased, hbalanced.le, hbalanced.waiting, hbalanced.few⟩
  ids := H.unique.nodup
  order := H.ledger.order
  answered hshut arrival harrival := by
    rcases H.ledger.answered arrival harrival with ⟨hopen, -⟩ | ⟨connection, hend, hgrant⟩ |
      ⟨-, hclosed⟩
    · rw [hshut] at hopen
      cases hopen
    · exact .inl ⟨connection, hend, H.ledger.granted _ hgrant⟩
    exact .inr hclosed
  counters hshut endpoint bucket hlook := by
    have hemptied := H.emptied hshut endpoint
    rw [RpcConnectionPool.bucket, hlook] at hemptied
    obtain rfl : bucket = { endpoint } := hemptied
    exact ⟨rfl, rfl⟩

/-- A pool keeps its promises in every run, and after the shutdown hands nothing out. -/
theorem run_pool {config : RpcConnectionPoolConfig} {events : List (PoolEvent ι)}
    (h : (start config).run events = some s) :
    Sound (normalize config) s ∧
      ∀ events' s', s.run events' = some s' → s.pool.shutDown = true →
        s'.leases.Sublist s.leases ∧ s'.grants = s.grants := by
  obtain ⟨H, hconfig⟩ := inv_run (inv_start config) h
  have hsound := H.sound
  rw [hconfig] at hsound
  exact ⟨hsound, fun events' s' hrun hshut => late_run H hshut hrun⟩

/-- A connection that is given back goes to the waiter, who is the one that holds it when the pool is
shut down. -/
theorem run_pool_handsOver : ∃ s : PoolState Nat,
    (start {}).run [.acquire 0 ⟨"a", 1⟩, .acquire 1 ⟨"a", 1⟩, .release 0 false, .resume 1, .shutdown] =
      some s ∧
    s.leases = [(1, freshConnection ⟨"a", 1⟩ 1)] ∧ Sound (normalize {}) s := by
  refine ⟨_, rfl, rfl, ?_⟩
  exact (@run_pool Nat _ _ {} [.acquire 0 ⟨"a", 1⟩, .acquire 1 ⟨"a", 1⟩, .release 0 false,
    .resume 1, .shutdown] rfl).1

/-! ### The counter of the ids -/

/-- Where there is room a call gets a new connection. -/
theorem Inv.step_acquire (H : Inv s) (hidle : s.calls i = .idle)
    (hvalid : isValidEndpoint endpoint = true) (hopen : s.pool.shutDown = false)
    (havail : (s.pool.bucket endpoint).available = [])
    (hroom : (s.pool.bucket endpoint).total < s.pool.config.maxConnectionsPerEndpoint) :
    ∃ pool, s.step (.acquire i endpoint) =
        some (s.got pool i (freshConnection endpoint s.pool.nextId)) ∧
      Changed s.pool endpoint { s.pool.bucket endpoint with
        total := (s.pool.bucket endpoint).total + 1, inUse := (s.pool.bucket endpoint).inUse + 1 }
        (s.pool.nextId + 1) pool := by
  have hacquired := H.keyed.acquire i endpoint
  rw [PoolState.step, hidle]
  dsimp only
  generalize s.pool.acquire i endpoint = outcome at hacquired ⊢
  obtain ⟨result, pool⟩ := outcome
  dsimp only at hacquired
  cases hacquired with
  | taken _ hsome =>
    rw [havail] at hsome
    cases hsome
  | created _ _ _ hchanged => exact ⟨pool, rfl, hchanged⟩
  | refused hwhy =>
    rcases hwhy with hwhy | hwhy | hwhy
    · rw [hvalid] at hwhy
      cases hwhy
    · rw [hopen] at hwhy
      cases hwhy
    exact absurd hroom (Nat.not_lt.2 hwhy)
  | queued _ _ hfull => exact absurd hroom (Nat.not_lt.2 hfull)

/-- A connection that is broken is given up, where nobody waits. -/
theorem Inv.step_release (H : Inv s)
    (hcall : s.calls i = .returned (.ok connection)) (hmem : (i, connection) ∈ s.leases)
    (hopen : s.pool.shutDown = false) (hwaiters : (s.pool.bucket connection.endpoint).waiters = [])
    (hused : (s.pool.bucket connection.endpoint).inUse ≠ 0) :
    ∃ pool, s.step (.release i true) = some (s.unlease i connection pool) ∧
      Changed s.pool connection.endpoint { s.pool.bucket connection.endpoint with
        inUse := (s.pool.bucket connection.endpoint).inUse - 1
        total := (s.pool.bucket connection.endpoint).total - 1 } s.pool.nextId pool := by
  have hvalid : ({ connection with
      broken := connection.broken || true } : RpcPooledConnection).valid = true :=
    (H.ledger.leased _ hmem).1
  have hreleased := H.keyed.release hvalid
  rw [PoolState.step, hcall]
  dsimp only
  rw [if_pos hmem]
  generalize s.pool.release { connection with broken := connection.broken || true } = outcome
    at hreleased ⊢
  obtain ⟨result, notes, pool⟩ := outcome
  dsimp only at hreleased
  cases hreleased with
  | unknown hbucket =>
    rw [hbucket] at hused
    exact absurd rfl hused
  | late hshut =>
    rw [hopen] at hshut
    cases hshut
  | dropped _ _ _ hchanged => exact ⟨pool, rfl, hchanged⟩
  | replaced _ _ hsome | passed _ _ hsome =>
    rw [hwaiters] at hsome
    cases hsome
  | returned _ hwhole =>
  rw [Bool.or_true] at hwhole
  cases hwhole

/-- One connection is held, and `k` others have been opened and given up. -/
structure Cycling (endpoint : RpcEndpoint) (k : Nat) (s : PoolState Nat) : Prop where
  inv : Inv s
  config : s.pool.config = { maxConnectionsPerEndpoint := 2 }
  opened : s.pool.shutDown = false
  bucket : s.pool.bucket endpoint = { endpoint, inUse := 1, total := 1 }
  nextId : s.pool.nextId = k + 2
  leases : s.leases = [(0, freshConnection endpoint 1)]
  idle : ∀ j > k, s.calls j = .idle

namespace Cycling

variable {s : PoolState Nat}

theorem acquire (h : Cycling endpoint k s) (hvalid : isValidEndpoint endpoint = true) :
    ∃ pool, s.step (.acquire (k + 1) endpoint) =
        some (s.got pool (k + 1) (freshConnection endpoint (k + 2))) ∧
      Changed s.pool endpoint { endpoint, inUse := 2, total := 2 } (k + 3) pool := by
  have hstep := h.inv.step_acquire (h.idle (k + 1) (Nat.lt_succ_self k)) hvalid h.opened
    (by rw [h.bucket]) (by rw [h.bucket, h.config]; exact Nat.lt_succ_self 1)
  rw [h.bucket, h.nextId] at hstep
  exact hstep

theorem next (h : Cycling endpoint k s) (hvalid : isValidEndpoint endpoint = true) :
    ∃ s', s.run [.acquire (k + 1) endpoint, .release (k + 1) true] = some s' ∧
      Cycling endpoint (k + 1) s' := by
  obtain ⟨pool, hstep, hchanged⟩ := h.acquire hvalid
  have H := h.inv.step hstep
  have hopen : pool.shutDown = false := hchanged.shutDown.trans h.opened
  have hcall : (s.got pool (k + 1) (freshConnection endpoint (k + 2))).calls (k + 1) =
      .returned (.ok (freshConnection endpoint (k + 2))) := Function.update_self ..
  have hwaiters : (pool.bucket endpoint).waiters = [] := by rw [hchanged.bucket_self]
  have hused : (pool.bucket endpoint).inUse ≠ 0 := by
    rw [hchanged.bucket_self]
    exact nofun
  obtain ⟨pool', hstep', hchanged'⟩ :=
    H.step_release hcall (mem_cons_self ..) hopen hwaiters hused
  refine ⟨_, Option.bind_eq_some_iff.2 ⟨_, hstep, Option.bind_eq_some_iff.2 ⟨_, hstep', rfl⟩⟩,
    H.step hstep', ?_, ?_, ?_, ?_, ?_, fun j hj => ?_⟩
  · exact hchanged'.config.trans (hchanged.config.trans h.config)
  · exact hchanged'.shutDown.trans hopen
  · refine hchanged'.bucket_self.trans ?_
    show ({ pool.bucket endpoint with
      inUse := (pool.bucket endpoint).inUse - 1
      total := (pool.bucket endpoint).total - 1 } : EndpointBucket Nat) = _
    rw [hchanged.bucket_self]
    rfl
  · exact hchanged'.nextId.trans hchanged.nextId
  · show ((k + 1, freshConnection endpoint (k + 2)) :: s.leases).erase _ = _
    rw [erase_cons_head, h.leases]
  have hne : j ≠ k + 1 := Nat.ne_of_gt hj
  exact (Function.update_of_ne hne _ _).trans (h.idle j (Nat.lt_of_succ_lt hj))

theorem many (h : Cycling endpoint 0 s) (hvalid : isValidEndpoint endpoint = true) (n : Nat) :
    ∃ s', s.run ((List.range n).flatMap fun k =>
        [.acquire (k + 1) endpoint, .release (k + 1) true]) = some s' ∧ Cycling endpoint n s' := by
  induction n with
  | zero => exact ⟨s, rfl, h⟩
  | succ n ih =>
  obtain ⟨before, hbefore, hcycling⟩ := ih
  obtain ⟨after, hafter, hnext⟩ := hcycling.next hvalid
  refine ⟨after, ?_, hnext⟩
  rw [range_succ, flatMap_append, run, foldlM_append]
  exact Option.bind_eq_some_iff.2 ⟨before, hbefore, hafter⟩

end Cycling

theorem cycling_start (hvalid : isValidEndpoint endpoint = true) :
    ∃ s, (start { maxConnectionsPerEndpoint := 2 }).run [.acquire 0 endpoint] = some s ∧
      Cycling endpoint 0 s := by
  have H : Inv (start { maxConnectionsPerEndpoint := 2 } : PoolState Nat) := inv_start _
  obtain ⟨pool, hstep, hchanged⟩ := @Inv.step_acquire _ _ _ 0 endpoint H rfl hvalid rfl rfl
    Nat.two_pos
  refine ⟨_, Option.bind_eq_some_iff.2 ⟨_, hstep, rfl⟩, H.step hstep, hchanged.config,
    hchanged.shutDown, hchanged.bucket_self, hchanged.nextId, rfl, fun j hj => ?_⟩
  exact Function.update_of_ne (Nat.ne_of_gt hj) _ _

theorem second_lease (hvalid : isValidEndpoint endpoint = true) (n : Nat) :
    ∃ events s, (start { maxConnectionsPerEndpoint := 2 }).run events = some s ∧
      s.pool.shutDown = false ∧
      s.leases = [(n + 1, freshConnection endpoint (n + 2)), (0, freshConnection endpoint 1)] := by
  obtain ⟨s, hstart, hcycling⟩ := cycling_start hvalid
  obtain ⟨s', hmany, hcycling'⟩ := hcycling.many hvalid n
  obtain ⟨pool, hstep, hchanged⟩ := hcycling'.acquire hvalid
  refine ⟨[.acquire 0 endpoint] ++ (((List.range n).flatMap fun k =>
    [.acquire (k + 1) endpoint, .release (k + 1) true]) ++ [.acquire (n + 1) endpoint]),
    s'.got pool (n + 1) (freshConnection endpoint (n + 2)), ?_,
    hchanged.shutDown.trans hcycling'.opened, congrArg (List.cons _) hcycling'.leases⟩
  rw [run, foldlM_append]
  refine Option.bind_eq_some_iff.2 ⟨s, hstart, ?_⟩
  rw [foldlM_append]
  exact Option.bind_eq_some_iff.2 ⟨s', hmany, Option.bind_eq_some_iff.2 ⟨_, hstep, rfl⟩⟩

/-- When the counter has wrapped around, two calls hold connections with the same id. -/
theorem ids_wrap : ∃ (events : List (PoolEvent Nat)) (s : PoolState Nat),
    (start { maxConnectionsPerEndpoint := 2 }).run events = some s ∧ s.pool.shutDown = false ∧
      ¬ (s.leases.map fun lease => lease.2.id).Nodup := by
  have hvalid : isValidEndpoint ⟨"a", 1⟩ = true := by decide
  have hwrap (n : Nat) (hn : n + 1 = 2 ^ 64) : UInt64.ofNat (n + 2) = UInt64.ofNat 1 := by
    rw [← UInt64.toNat_inj, UInt64.toNat_ofNat', UInt64.toNat_ofNat']
    omega
  obtain ⟨events, s, hrun, hopen, hleases⟩ := second_lease hvalid (2 ^ 64 - 1)
  refine ⟨events, s, hrun, hopen, ?_⟩
  rw [hleases, map_cons, map_singleton]
  intro hnodup
  have hsame := hwrap (2 ^ 64 - 1) (Nat.sub_add_cancel Nat.one_le_two_pow)
  exact (List.nodup_cons.1 hnodup).1 (List.mem_singleton.2 hsame)

end PoolState

end Galay.Rpc
