import Galay.Rpc.ConnectionPoolSteps
import Galay.Lib.Run

/-!
# What holds of a connection pool and its callers

Before the shutdown each bucket counts its connections, those that calls hold among them, and has
waiters only where nothing can be handed out (`Balanced`). The waiters of an endpoint that have been
given a connection are the first of those that have come (`Ledger.order`). No id is held twice as long
as the counter of the ids has not wrapped around (`UniqueIds`).
-/

namespace Galay.Rpc

open Function (update update_of_ne update_self)
open List
open RpcConnectionPool

variable {ι : Type*}

/-! ## One bucket -/

/-- What holds of a bucket with `leased` connections held by calls, for which the waiters `arrived`
have come and the waiters `granted` have been given a connection. -/
structure Balanced (config : RpcConnectionPoolConfig) (b : EndpointBucket ι) (leased : Nat)
    (arrived granted : List ι) : Prop where
  count : b.available.length + b.inUse = b.total
  le : b.total ≤ config.maxConnectionsPerEndpoint
  leased : b.inUse = leased
  waiting : b.waiters ≠ [] → b.available = [] ∧ b.total = config.maxConnectionsPerEndpoint
  few : b.waiters.length ≤ config.maxWaitersPerEndpoint
  order : arrived = granted ++ b.waiters

namespace Balanced

variable {config : RpcConnectionPoolConfig} {b : EndpointBucket ι} {leased : Nat}
  {arrived granted waiters : List ι} {i : ι} {connection : RpcPooledConnection}
  {available : List RpcPooledConnection}

theorem empty (endpoint : RpcEndpoint) : Balanced config { endpoint } 0 ([] : List ι) [] :=
  ⟨rfl, Nat.zero_le _, rfl, fun h => absurd rfl h, Nat.zero_le _, rfl⟩

section

variable (h : Balanced config b leased arrived granted)
include h

theorem waiters_nil (hroom : b.available ≠ [] ∨ b.total < config.maxConnectionsPerEndpoint) :
    b.waiters = [] := by
  rcases hwaiters : b.waiters with _ | ⟨i, waiters⟩
  · rfl
  obtain ⟨havail, htotal⟩ := h.waiting (by rw [hwaiters]; exact nofun)
  rcases hroom with hsome | hlt
  · exact absurd havail hsome
  exact absurd htotal hlt.ne

theorem warmed (hroom : b.total < config.maxConnectionsPerEndpoint) :
    Balanced config { b with
      available := b.available ++ [connection], total := b.total + 1 } leased arrived granted where
  __ := h
  count := by
    have hcount := h.count
    dsimp only
    rw [length_append, length_singleton]
    omega
  le := hroom
  waiting hwaiters := absurd (h.waiters_nil (.inr hroom)) hwaiters

theorem taken (havail : b.available = connection :: available) :
    Balanced config { b with available, inUse := b.inUse + 1 } (leased + 1) arrived granted where
  __ := h
  count := by
    have hcount := h.count
    rw [havail, length_cons] at hcount
    dsimp only
    omega
  leased := congrArg (· + 1) h.leased
  waiting hwaiters := absurd (h.waiters_nil (.inl (by rw [havail]; exact nofun))) hwaiters

theorem created (hroom : b.total < config.maxConnectionsPerEndpoint) :
    Balanced config { b with total := b.total + 1, inUse := b.inUse + 1 } (leased + 1) arrived
      granted where
  __ := h
  count := congrArg (· + 1) h.count
  le := hroom
  leased := congrArg (· + 1) h.leased
  waiting hwaiters := absurd (h.waiters_nil (.inr hroom)) hwaiters

theorem queued (havail : b.available = []) (hfull : config.maxConnectionsPerEndpoint ≤ b.total)
    (hfew : b.waiters.length < config.maxWaitersPerEndpoint) :
    Balanced config { b with waiters := b.waiters ++ [i] } leased (arrived ++ [i]) granted where
  __ := h
  waiting _ := ⟨havail, Nat.le_antisymm h.le hfull⟩
  few := by
    dsimp only
    rw [length_append]
    exact hfew
  order := by
    dsimp only
    rw [h.order, append_assoc]

end

section

variable (h : Balanced config b (leased + 1) arrived granted)
include h

theorem dropped (hwaiters : b.waiters = [] ∨ config.maxConnectionsPerEndpoint ≤ b.total - 1) :
    Balanced config { b with inUse := b.inUse - 1, total := b.total - 1 } leased arrived
      granted where
  __ := h
  count := by
    have hcount := h.count
    have hleased := h.leased
    dsimp only
    omega
  le := (Nat.sub_le _ _).trans h.le
  leased := by
    have hleased := h.leased
    dsimp only
    omega
  waiting hsome := by
    have hcount := h.count
    have hleased := h.leased
    have hle := h.le
    rcases hwaiters with hnone | hfull
    · exact absurd hnone hsome
    omega

/-- The first waiter gets the place of a connection that is given back. -/
theorem passed (hwaiters : b.waiters = i :: waiters) :
    Balanced config { b with waiters, inUse := b.inUse - 1 + 1 } (leased + 1) arrived
      (granted ++ [i]) where
  count := by
    have hcount := h.count
    have hleased := h.leased
    dsimp only
    omega
  le := h.le
  leased := by
    have hleased := h.leased
    dsimp only
    omega
  waiting _ := h.waiting (by rw [hwaiters]; exact nofun)
  few := by
    have hfew := h.few
    rw [hwaiters, length_cons] at hfew
    exact Nat.le_of_succ_le hfew
  order := by rw [h.order, hwaiters, append_assoc, singleton_append]

theorem replaced (hwaiters : b.waiters = i :: waiters) :
    Balanced config { b with waiters, inUse := b.inUse - 1 + 1, total := b.total - 1 + 1 }
      (leased + 1) arrived (granted ++ [i]) := by
  have hcount := h.count
  have hleased := h.leased
  have htotal : b.total - 1 + 1 = b.total := by omega
  rw [htotal]
  exact h.passed hwaiters

theorem returned (hwaiters : b.waiters = []) :
    Balanced config { b with
      available := b.available ++ [connection], inUse := b.inUse - 1 } leased arrived granted where
  __ := h
  count := by
    have hcount := h.count
    have hleased := h.leased
    dsimp only
    rw [length_append, length_singleton]
    omega
  leased := by
    have hleased := h.leased
    dsimp only
    omega
  waiting hsome := absurd hwaiters hsome

end

end Balanced

/-! ## Ids -/

/-- The ids come from the counter, and are different while it has not wrapped around. -/
structure UniqueIds (n : Nat) (ids : List UInt64) : Prop where
  fresh : ∀ id ∈ ids, ∃ m < n, id = UInt64.ofNat m
  nodup : n ≤ 2 ^ 64 → ids.Nodup

namespace UniqueIds

variable {n : Nat} {ids ids' : List UInt64}

theorem perm (h : UniqueIds n ids) (hperm : ids'.Perm ids) : UniqueIds n ids' :=
  ⟨fun id hid => h.fresh id (hperm.mem_iff.1 hid), fun hn => hperm.nodup_iff.2 (h.nodup hn)⟩

theorem sublist (h : UniqueIds n ids) (hsub : ids'.Sublist ids) : UniqueIds n ids' :=
  ⟨fun id hid => h.fresh id (hsub.subset hid), fun hn => (h.nodup hn).sublist hsub⟩

theorem cons (h : UniqueIds n ids) : UniqueIds (n + 1) (UInt64.ofNat n :: ids) where
  fresh id hid := by
    rcases List.mem_cons.1 hid with rfl | hid
    · exact ⟨n, Nat.lt_succ_self n, rfl⟩
    obtain ⟨m, hm, hid⟩ := h.fresh id hid
    exact ⟨m, Nat.lt_succ_of_lt hm, hid⟩
  nodup hn := by
    refine List.nodup_cons.2 ⟨fun hmem => ?_, h.nodup (Nat.le_of_succ_le hn)⟩
    obtain ⟨m, hm, hid⟩ := h.fresh _ hmem
    have heq := congrArg UInt64.toNat hid
    rw [UInt64.toNat_ofNat_of_lt' hn, UInt64.toNat_ofNat_of_lt' (hm.trans hn)] at heq
    exact absurd heq.symm hm.ne

end UniqueIds

/-! ## Callers -/

/-- What a call has been told. -/
def AcquireCall.result : AcquireCall → Option RpcPoolAcquireResult
  | .notified result | .returned result => some result
  | _ => none

namespace PoolState

variable [DecidableEq ι] {s s' : PoolState ι} {i j : ι} {key k : RpcEndpoint}
  {connection : RpcPooledConnection}

variable (s)

variable (key)

def leasedAt : Nat :=
  s.leases.countP fun lease => lease.2.endpoint = key

def arrivedAt : List ι :=
  (s.arrivals.filter fun arrival => arrival.1 = key).map Prod.snd

def grantedAt : List ι :=
  (s.grants.filter fun grant => grant.2.endpoint = key).map Prod.fst

variable {key}

def ids : List UInt64 :=
  s.leases.map (fun lease => lease.2.id) ++ s.pool.idle.map RpcPooledConnection.id

variable {s}

omit [DecidableEq ι] in
theorem mem_arrivedAt : i ∈ s.arrivedAt key ↔ (key, i) ∈ s.arrivals := by
  constructor
  · intro h
    obtain ⟨arrival, hmem, rfl⟩ := List.mem_map.1 h
    obtain ⟨harrival, hkey⟩ := List.mem_filter.1 hmem
    obtain rfl := of_decide_eq_true hkey
    exact harrival
  intro h
  exact List.mem_map.2 ⟨(key, i), List.mem_filter.2 ⟨h, decide_eq_true rfl⟩, rfl⟩

omit [DecidableEq ι] in
theorem mem_grantedAt (h : (i, connection) ∈ s.grants) : i ∈ s.grantedAt connection.endpoint :=
  List.mem_map.2 ⟨(i, connection), List.mem_filter.2 ⟨h, decide_eq_true rfl⟩, rfl⟩

theorem grantedAt_notify (s : PoolState ι) (j : ι) (connection : RpcPooledConnection)
    (key : RpcEndpoint) :
    (s.notify (j, .ok connection)).grantedAt key =
      s.grantedAt key ++ if connection.endpoint = key then [j] else [] := by
  show ((s.grants ++ [(j, connection)]).filter fun grant => grant.2.endpoint = key).map Prod.fst = _
  rw [filter_append, map_append, filter_singleton, grantedAt]
  rcases eq_or_ne connection.endpoint key with hkey | hkey <;> simp [hkey]

theorem arrivedAt_queue (s : PoolState ι) (i : ι) (endpoint key : RpcEndpoint) :
    ({ s with arrivals := s.arrivals ++ [(endpoint, i)] }.setCall i .waiting).arrivedAt key =
      s.arrivedAt key ++ if endpoint = key then [i] else [] := by
  show ((s.arrivals ++ [(endpoint, i)]).filter fun arrival => arrival.1 = key).map Prod.snd = _
  rw [filter_append, map_append, filter_singleton, arrivedAt]
  rcases eq_or_ne endpoint key with hkey | hkey <;> simp [hkey]

/-- What the calls have been told agrees with who holds a connection and who has waited. -/
structure Ledger (s : PoolState ι) : Prop where
  leased : ∀ lease ∈ s.leases, lease.2.valid = true ∧
    (s.calls lease.1).result = some (.ok lease.2)
  granted : ∀ grant ∈ s.grants, (s.calls grant.1).result = some (.ok grant.2)
  arrivedOnce : (s.arrivals.map Prod.snd).Nodup
  started : ∀ arrival ∈ s.arrivals, s.calls arrival.2 ≠ .idle
  /-- A waiter waits, or has been given a connection, or the pool has been shut down. -/
  answered : ∀ arrival ∈ s.arrivals,
    (s.pool.shutDown = false ∧ s.calls arrival.2 = .waiting) ∨
    (∃ connection : RpcPooledConnection, connection.endpoint = arrival.1 ∧
      (arrival.2, connection) ∈ s.grants) ∨
    (s.pool.shutDown = true ∧ (s.calls arrival.2).result = some (.error closed))
  order : ∀ key, s.grantedAt key <+: s.arrivedAt key

namespace Ledger

omit [DecidableEq ι] in
theorem withPool (h : Ledger s) {pool : RpcConnectionPool ι}
    (hshut : pool.shutDown = s.pool.shutDown) : Ledger { s with pool } where
  __ := h
  answered arrival harrival := by
    dsimp only
    rw [hshut]
    exact h.answered arrival harrival

/-- A call that had not been told anything goes on. -/
theorem setCall (h : Ledger s) (hcall : call ≠ .idle)
    (hres : (s.calls i).result ≠ none → call.result = (s.calls i).result)
    (hwaiting : s.calls i ≠ .waiting) : Ledger (s.setCall i call) := by
  have hkept : ∀ j, (s.calls j).result ≠ none →
      (update s.calls i call j).result = (s.calls j).result := by
    intro j hj
    rcases eq_or_ne j i with rfl | hne
    · rw [update_self]
      exact hres hj
    rw [update_of_ne hne]
  refine ⟨?_, ?_, h.arrivedOnce, ?_, ?_, h.order⟩
  · intro lease hlease
    obtain ⟨hvalid, hcalls⟩ := h.leased lease hlease
    exact ⟨hvalid, (hkept _ (by rw [hcalls]; exact nofun)).trans hcalls⟩
  · intro grant hgrant
    have hcalls := h.granted grant hgrant
    exact (hkept _ (by rw [hcalls]; exact nofun)).trans hcalls
  · intro arrival harrival
    show update s.calls i call arrival.2 ≠ .idle
    rcases eq_or_ne arrival.2 i with heq | hne
    · rw [heq, update_self]
      exact hcall
    rw [update_of_ne hne]
    exact h.started arrival harrival
  intro arrival harrival
  rcases h.answered arrival harrival with ⟨hopen, hwaits⟩ | hgranted | ⟨hshut, hclosed⟩
  · have hne : arrival.2 ≠ i := by
      rintro rfl
      exact hwaiting hwaits
    exact .inl ⟨hopen, (update_of_ne hne _ _).trans hwaits⟩
  · exact .inr (.inl hgranted)
  exact .inr (.inr ⟨hshut, (hkept _ (by rw [hclosed]; exact nofun)).trans hclosed⟩)

/-- A call returns without having waited. -/
theorem told (h : Ledger s) (hidle : s.calls i = .idle) (result : RpcPoolAcquireResult) :
    Ledger (s.setCall i (.returned result)) := by
  have hnone : (s.calls i).result = none := by
    rw [hidle]
    rfl
  have hwaiting : s.calls i ≠ .waiting := by
    rw [hidle]
    exact nofun
  exact h.setCall nofun (fun hsome => absurd hnone hsome) hwaiting

omit [DecidableEq ι] in
theorem lease (h : Ledger s) (hvalid : connection.valid = true)
    (hcall : (s.calls i).result = some (.ok connection)) : Ledger (s.lease i (.ok connection)) :=
  { h with leased := List.forall_mem_cons.2 ⟨⟨hvalid, hcall⟩, h.leased⟩ }

theorem erase (h : Ledger s) (x : ι × RpcPooledConnection) :
    Ledger { s with leases := s.leases.erase x } :=
  { h with leased := fun lease hlease => h.leased lease (mem_of_mem_erase hlease) }

omit [DecidableEq ι] in
theorem idle_not_arrived (h : Ledger s) (hidle : s.calls i = .idle) :
    i ∉ s.arrivals.map Prod.snd := by
  intro hmem
  obtain ⟨arrival, harrival, rfl⟩ := List.mem_map.1 hmem
  exact h.started arrival harrival hidle

theorem queue (h : Ledger s) (hidle : s.calls i = .idle) (hopen : s.pool.shutDown = false)
    (endpoint : RpcEndpoint) :
    Ledger ({ s with arrivals := s.arrivals ++ [(endpoint, i)] }.setCall i .waiting) := by
  have hnone : (s.calls i).result = none := by
    rw [hidle]
    rfl
  have hwaiting : s.calls i ≠ .waiting := by
    rw [hidle]
    exact nofun
  have hset : Ledger (s.setCall i .waiting) :=
    h.setCall nofun (fun hsome => absurd hnone hsome) hwaiting
  have hself : update s.calls i .waiting i = AcquireCall.waiting :=
    update_self ..
  refine ⟨hset.leased, hset.granted, ?_, ?_, ?_, fun key => ?_⟩
  · show ((s.arrivals ++ [(endpoint, i)]).map Prod.snd).Nodup
    rw [map_append, map_singleton, nodup_append]
    refine ⟨h.arrivedOnce, nodup_singleton _, fun a ha b hb => ?_⟩
    rw [List.mem_singleton.1 hb]
    rintro rfl
    exact h.idle_not_arrived hidle ha
  · intro arrival harrival
    rcases List.mem_append.1 harrival with harrival | harrival
    · exact hset.started arrival harrival
    rw [List.mem_singleton.1 harrival]
    exact ne_of_eq_of_ne hself nofun
  · intro arrival harrival
    rcases List.mem_append.1 harrival with harrival | harrival
    · exact hset.answered arrival harrival
    rw [List.mem_singleton.1 harrival]
    exact .inl ⟨hopen, hself⟩
  apply (h.order key).trans
  rw [arrivedAt_queue]
  exact prefix_append _ _

/-- The first waiter that has not been given a connection is given one. -/
theorem notify (h : Ledger s) (hwaits : s.calls j = .waiting) (hvalid : connection.valid = true)
    (horder : s.grantedAt connection.endpoint ++ [j] <+: s.arrivedAt connection.endpoint) :
    Ledger (s.notify (j, .ok connection)) := by
  have hself : update s.calls j (.notified (.ok connection)) j =
      AcquireCall.notified (.ok connection) := update_self ..
  have hkept : ∀ i, (s.calls i).result ≠ none →
      update s.calls j (.notified (.ok connection)) i = s.calls i := by
    intro i hi
    apply update_of_ne
    rintro rfl
    exact hi (by rw [hwaits]; rfl)
  refine ⟨List.forall_mem_cons.2 ⟨⟨hvalid, congrArg _ hself⟩, ?_⟩, ?_, h.arrivedOnce, ?_, ?_,
    fun key => ?_⟩
  · intro lease hlease
    obtain ⟨hvalid', hcalls⟩ := h.leased lease hlease
    exact ⟨hvalid', (congrArg _ (hkept _ (by rw [hcalls]; exact nofun))).trans hcalls⟩
  · intro grant hgrant
    rcases List.mem_append.1 hgrant with hgrant | hgrant
    · have hcalls := h.granted grant hgrant
      exact (congrArg _ (hkept _ (by rw [hcalls]; exact nofun))).trans hcalls
    rw [List.mem_singleton.1 hgrant]
    exact congrArg _ hself
  · intro arrival harrival
    show update s.calls j (.notified (.ok connection)) arrival.2 ≠ .idle
    rcases eq_or_ne arrival.2 j with heq | hne
    · rw [heq, hself]
      exact nofun
    rw [update_of_ne hne]
    exact h.started arrival harrival
  · intro arrival harrival
    rcases h.answered arrival harrival with ⟨hopen, hcalls⟩ | ⟨connection', hend, hgrant⟩ |
      ⟨hshut, hclosed⟩
    · rcases eq_or_ne arrival.2 j with rfl | hne
      · have hgranted : (connection.endpoint, arrival.2) ∈ s.arrivals :=
          mem_arrivedAt.1 (horder.subset (mem_append_right _ (mem_singleton_self _)))
        have hsame := inj_on_of_nodup_map h.arrivedOnce hgranted harrival rfl
        exact .inr (.inl ⟨connection, congrArg Prod.fst hsame,
          mem_append_right _ (mem_singleton_self _)⟩)
      exact .inl ⟨hopen, (update_of_ne hne _ _).trans hcalls⟩
    · exact .inr (.inl ⟨connection', hend, mem_append_left _ hgrant⟩)
    exact .inr (.inr ⟨hshut, (congrArg _ (hkept _ (by rw [hclosed]; exact nofun))).trans hclosed⟩)
  rw [grantedAt_notify]
  split
  · next hkey => exact hkey ▸ horder
  rw [append_nil]
  exact h.order key

end Ledger

/-! ## The pool and its callers -/

structure Inv (s : PoolState ι) : Prop where
  ledger : Ledger s
  keyed : s.pool.Keyed
  available : ∀ key, ∀ connection ∈ (s.pool.bucket key).available,
    connection.endpoint = key ∧ connection.valid = true
  balanced : s.pool.shutDown = false → ∀ key, Balanced s.pool.config (s.pool.bucket key)
    (s.leasedAt key) (s.arrivedAt key) (s.grantedAt key)
  emptied : s.pool.shutDown = true → ∀ key, s.pool.bucket key = { endpoint := key }
  unique : UniqueIds s.pool.nextId s.ids

variable {b : EndpointBucket ι} {n : Nat}

omit [DecidableEq ι] in
/-- A step that changes one bucket. -/
theorem Inv.of_changed (H : Inv s) (hchanged : Changed s.pool key b n s'.pool)
    (hledger : Ledger s') (hend : b.endpoint = key)
    (havail : ∀ connection ∈ b.available, connection.endpoint = key ∧ connection.valid = true)
    (hbalanced : s.pool.shutDown = false → Balanced s.pool.config b (s'.leasedAt key)
      (s'.arrivedAt key) (s'.grantedAt key))
    (hothers : ∀ k ≠ key, s'.leasedAt k = s.leasedAt k ∧ s'.arrivedAt k = s.arrivedAt k ∧
      s'.grantedAt k = s.grantedAt k)
    (hemptied : s.pool.shutDown = true → b = { endpoint := key })
    (hunique : UniqueIds n s'.ids) : Inv s' where
  ledger := hledger
  keyed := H.keyed.changed hchanged hend
  available k := by
    rcases eq_or_ne k key with rfl | hk
    · rw [hchanged.bucket_self]
      exact havail
    rw [hchanged.bucket_ne k hk]
    exact H.available k
  balanced hopen k := by
    rw [hchanged.shutDown] at hopen
    rw [hchanged.config]
    rcases eq_or_ne k key with rfl | hk
    · rw [hchanged.bucket_self]
      exact hbalanced hopen
    obtain ⟨hleased, harrived, hgranted⟩ := hothers k hk
    rw [hchanged.bucket_ne k hk, hleased, harrived, hgranted]
    exact H.balanced hopen k
  emptied hshut k := by
    rw [hchanged.shutDown] at hshut
    rcases eq_or_ne k key with rfl | hk
    · rw [hchanged.bucket_self]
      exact hemptied hshut
    rw [hchanged.bucket_ne k hk]
    exact H.emptied hshut k
  unique := hchanged.nextId ▸ hunique

omit [DecidableEq ι] in
theorem leasedAt_cons (s : PoolState ι) (i : ι) (connection : RpcPooledConnection)
    (key : RpcEndpoint) : (s.lease i (.ok connection)).leasedAt key =
      s.leasedAt key + if connection.endpoint = key then 1 else 0 := by
  show ((i, connection) :: s.leases).countP _ = _
  rw [countP_cons, leasedAt]
  rcases eq_or_ne connection.endpoint key with hkey | hkey <;> simp [hkey]

omit [DecidableEq ι] in
/-- The free lists have the same connections, and the calls hold the same. -/
theorem ids_perm (hleases : s'.leases = s.leases) (hidle : s'.pool.idle.Perm s.pool.idle) :
    s'.ids.Perm s.ids := by
  rw [ids, ids, hleases]
  exact (hidle.map _).append_left _

theorem leasedAt_notify (s : PoolState ι) (j : ι) (connection : RpcPooledConnection)
    (key : RpcEndpoint) : (s.notify (j, .ok connection)).leasedAt key =
      s.leasedAt key + if connection.endpoint = key then 1 else 0 := leasedAt_cons ..

/-! ### Acquiring -/

section Acquiring

variable {pool : RpcConnectionPool ι} {endpoint : RpcEndpoint}

/-- The state after a call has got a connection without waiting. -/
def got (s : PoolState ι) (pool : RpcConnectionPool ι) (i : ι) (connection : RpcPooledConnection) :
    PoolState ι :=
  ({ s with pool }.setCall i (.returned (.ok connection))).lease i (.ok connection)

theorem Ledger.got (h : Ledger s) (hidle : s.calls i = .idle)
    (hshut : pool.shutDown = s.pool.shutDown) (hvalid : connection.valid = true) :
    Ledger (s.got pool i connection) :=
  ((h.withPool hshut).told hidle _).lease hvalid (congrArg _ (update_self ..))

theorem leasedAt_got (s : PoolState ι) (pool : RpcConnectionPool ι) (i : ι)
    (connection : RpcPooledConnection) (key : RpcEndpoint) :
    (s.got pool i connection).leasedAt key =
      s.leasedAt key + if connection.endpoint = key then 1 else 0 := leasedAt_cons ..

section

variable (H : Inv s) (hidle : s.calls i = .idle)
include H hidle

theorem Inv.acquired (h : Acquired s.pool i endpoint (some (.ok connection)) pool) :
    Inv (s.got pool i connection) := by
  cases h with
  | taken hopen havail hchanged =>
    obtain ⟨hend, hvalid⟩ := H.available endpoint connection
      (by rw [havail]; exact mem_cons_self ..)
    have hledger := H.ledger.got hidle hchanged.shutDown hvalid
    refine H.of_changed hchanged hledger (H.keyed endpoint) ?_ ?_ ?_ ?_ ?_
    · intro c hc
      exact H.available endpoint c (by rw [havail]; exact mem_cons_of_mem _ hc)
    · intro hopen
      rw [leasedAt_got, if_pos hend]
      exact (H.balanced hopen endpoint).taken havail
    · intro k hk
      rw [leasedAt_got, if_neg (by rw [hend]; exact hk.symm)]
      exact ⟨rfl, rfl, rfl⟩
    · intro hshut
      rw [hopen] at hshut
      cases hshut
    apply H.unique.perm
    have hidle := ((hchanged.idle_taken havail).map RpcPooledConnection.id).append_left
      (s.leases.map fun lease => lease.2.id)
    exact List.perm_middle.symm.trans hidle.symm
  | created hopen havail hroom hchanged =>
  have hledger : Ledger (s.got pool i (freshConnection endpoint s.pool.nextId)) :=
    H.ledger.got hidle hchanged.shutDown rfl
  have hfresh : (freshConnection endpoint s.pool.nextId).endpoint = endpoint := rfl
  refine H.of_changed hchanged hledger (H.keyed endpoint) (H.available endpoint) ?_ ?_ ?_ ?_
  · intro hopen
    rw [leasedAt_got, if_pos hfresh]
    exact (H.balanced hopen endpoint).created hroom
  · intro k hk
    rw [leasedAt_got, if_neg (by rw [hfresh]; exact hk.symm)]
    exact ⟨rfl, rfl, rfl⟩
  · intro hshut
    rw [hopen] at hshut
    cases hshut
  have hidle := ((hchanged.idle_same rfl).map RpcPooledConnection.id).append_left
    (s.leases.map fun lease => lease.2.id)
  exact H.unique.cons.perm (hidle.cons _)

theorem Inv.refused (h : Acquired s.pool i endpoint (some (.error error)) pool) :
    Inv ({ s with pool }.setCall i (.returned (.error error))) := by
  cases h with
  | refused _ hchanged =>
  refine H.of_changed hchanged ((H.ledger.withPool hchanged.shutDown).told hidle _)
    (H.keyed endpoint) (H.available endpoint) (fun hopen => H.balanced hopen endpoint)
    (fun k hk => ⟨rfl, rfl, rfl⟩) (fun hshut => H.emptied hshut endpoint) ?_
  exact H.unique.perm (ids_perm rfl (hchanged.idle_same rfl))

theorem Inv.queued (h : Acquired s.pool i endpoint none pool) :
    Inv ({ s with pool, arrivals := s.arrivals ++ [(endpoint, i)] }.setCall i .waiting) := by
  cases h with
  | queued hopen havail hfull hfew hchanged =>
  have hledger := (H.ledger.withPool hchanged.shutDown).queue hidle
    (hchanged.shutDown.trans hopen) endpoint
  have harrivedAt := arrivedAt_queue { s with pool } i endpoint
  refine H.of_changed hchanged hledger (H.keyed endpoint) (H.available endpoint) ?_ ?_ ?_ ?_
  · intro hopen
    rw [harrivedAt, if_pos rfl]
    exact (H.balanced hopen endpoint).queued havail hfull hfew
  · intro k hk
    rw [harrivedAt, if_neg hk.symm, append_nil]
    exact ⟨rfl, rfl, rfl⟩
  · intro hshut
    rw [hopen] at hshut
    cases hshut
  exact H.unique.perm (ids_perm rfl (hchanged.idle_same rfl))

end

end Acquiring

/-! ### Releasing -/

section Releasing

variable {pool : RpcConnectionPool ι} {c : RpcPooledConnection}

/-- The state after the lease has been given up. -/
def unlease (s : PoolState ι) (i : ι) (c : RpcPooledConnection) (pool : RpcConnectionPool ι) :
    PoolState ι :=
  { s with leases := s.leases.erase (i, c), pool }

section

variable (hmem : (i, c) ∈ s.leases)
include hmem

theorem leasedAt_unlease (pool : RpcConnectionPool ι) (key : RpcEndpoint) :
    s.leasedAt key = (s.unlease i c pool).leasedAt key + if c.endpoint = key then 1 else 0 := by
  rw [leasedAt, (perm_cons_erase hmem).countP_eq, countP_cons]
  rcases eq_or_ne c.endpoint key with hkey | hkey <;> simp [hkey, unlease, leasedAt]

theorem ids_unlease :
    (s.leases.map fun lease => lease.2.id).Perm
      (c.id :: (s.leases.erase (i, c)).map fun lease => lease.2.id) :=
  (perm_cons_erase hmem).map _

theorem ids_drop (hidle : pool.idle.Perm s.pool.idle) :
    (c.id :: (s.unlease i c pool).ids).Perm s.ids :=
  (((ids_unlease hmem).symm.append_right _).trans ((hidle.map _).append_left _))

theorem ids_giveBack (hidle : pool.idle.Perm ({ c with broken } :: s.pool.idle)) :
    (s.unlease i c pool).ids.Perm s.ids :=
  ((hidle.map _).append_left _).trans
    (List.perm_middle.trans ((ids_unlease hmem).symm.append_right _))

end

omit [DecidableEq ι] in
theorem Inv.waiting (H : Inv s) (hopen : s.pool.shutDown = false)
    (hj : j ∈ (s.pool.bucket key).waiters) : s.calls j = .waiting := by
  have horder := (H.balanced hopen key).order
  have harrived : (key, j) ∈ s.arrivals := by
    apply mem_arrivedAt.1
    rw [horder]
    exact mem_append_right _ hj
  have hnodup : (s.arrivedAt key).Nodup :=
    H.ledger.arrivedOnce.sublist (List.filter_sublist.map _)
  rcases H.ledger.answered _ harrived with ⟨-, hwaits⟩ | ⟨connection, hend, hgrant⟩ |
    ⟨hshut, -⟩
  · exact hwaits
  · dsimp only at hend hgrant
    obtain rfl := hend
    rw [horder] at hnodup
    exact absurd hj ((List.nodup_append.1 hnodup).2.2 j (mem_grantedAt hgrant) j · rfl)
  rw [hopen] at hshut
  cases hshut

theorem Inv.granting (H : Inv s) (hopen : s.pool.shutDown = false)
    (hwaiters : (s.pool.bucket key).waiters = j :: waiters) (hledger : Ledger (s.unlease i c pool))
    (hend : connection.endpoint = key) (hvalid : connection.valid = true) :
    Ledger ((s.unlease i c pool).notify (j, .ok connection)) := by
  have hwaits : s.calls j = .waiting := H.waiting hopen (by rw [hwaiters]; exact mem_cons_self ..)
  have horder := (H.balanced hopen key).order
  apply hledger.notify hwaits hvalid
  show s.grantedAt connection.endpoint ++ [j] <+: s.arrivedAt connection.endpoint
  rw [hend, horder, hwaiters]
  exact ⟨waiters, by rw [append_assoc, singleton_append]⟩

theorem granting_balanced {config : RpcConnectionPoolConfig}
    (h : Balanced config b ((s.unlease i c pool).leasedAt key + 1) (s.arrivedAt key)
      (s.grantedAt key ++ [j])) (hend : connection.endpoint = key) :
    Balanced config b (((s.unlease i c pool).notify (j, .ok connection)).leasedAt key)
      (((s.unlease i c pool).notify (j, .ok connection)).arrivedAt key)
      (((s.unlease i c pool).notify (j, .ok connection)).grantedAt key) := by
  rw [leasedAt_notify, grantedAt_notify, if_pos hend, if_pos hend]
  exact h

theorem granting_others (hmem : (i, c) ∈ s.leases) (hend : connection.endpoint = c.endpoint)
    (hk : k ≠ c.endpoint) :
    ((s.unlease i c pool).notify (j, .ok connection)).leasedAt k = s.leasedAt k ∧
      ((s.unlease i c pool).notify (j, .ok connection)).arrivedAt k = s.arrivedAt k ∧
      ((s.unlease i c pool).notify (j, .ok connection)).grantedAt k = s.grantedAt k := by
  have hne : connection.endpoint ≠ k := hend ▸ hk.symm
  rw [leasedAt_notify, grantedAt_notify, if_neg hne, if_neg hne, append_nil,
    leasedAt_unlease hmem pool k, if_neg hk.symm]
  exact ⟨rfl, rfl, rfl⟩

theorem Inv.released (H : Inv s) (hmem : (i, c) ∈ s.leases)
    (h : Released s.pool { c with broken } notes pool) :
    Inv (notes.foldl PoolState.notify (s.unlease i c pool)) := by
  have hledger (hshut : pool.shutDown = s.pool.shutDown) : Ledger (s.unlease i c pool) :=
    (H.ledger.erase (i, c)).withPool hshut
  have hvalid := (H.ledger.leased _ hmem).1
  have hleased := leasedAt_unlease hmem pool
  have hself := hleased c.endpoint
  rw [if_pos rfl] at hself
  have hother (k : RpcEndpoint) (hk : k ≠ c.endpoint) :
      (s.unlease i c pool).leasedAt k = s.leasedAt k := by
    have hk' := hleased k
    rw [if_neg hk.symm] at hk'
    exact hk'.symm
  have hbalanced (hopen : s.pool.shutDown = false) := H.balanced hopen c.endpoint
  rw [hself] at hbalanced
  cases h with
  | unknown hbucket =>
    refine H.of_changed (Changed.refl s.pool c.endpoint) (hledger rfl) (H.keyed _) (H.available _)
      (fun hopen => ?_) (fun k hk => ⟨hother k hk, rfl, rfl⟩) (fun hshut => H.emptied hshut _)
      ((H.unique.perm (ids_drop hmem (.refl _))).sublist (sublist_cons_self ..))
    -- A call holds one of its connections.
    have hnone := (hbalanced hopen).leased
    rw [hbucket] at hnone
    cases hnone
  | late hshut hchanged =>
    refine H.of_changed hchanged (hledger hchanged.shutDown) (H.keyed _) (H.available _)
      (fun hopen => ?_) (fun k hk => ⟨hother k hk, rfl, rfl⟩) (fun _ => ?_)
      ((H.unique.perm (ids_drop hmem (hchanged.idle_same rfl))).sublist (sublist_cons_self ..))
    · rw [hopen] at hshut
      cases hshut
    rw [H.emptied hshut]
    rfl
  | dropped hopen _ hwaiters hchanged =>
    refine H.of_changed hchanged (hledger hchanged.shutDown) (H.keyed _) (H.available _)
      (fun hopen => (hbalanced hopen).dropped hwaiters) (fun k hk => ⟨hother k hk, rfl, rfl⟩)
      (fun hshut => ?_)
      ((H.unique.perm (ids_drop hmem (hchanged.idle_same rfl))).sublist (sublist_cons_self ..))
    rw [hopen] at hshut
    cases hshut
  | @replaced _ j waiters hopen _ hwaiters hchanged =>
    have hledger' : Ledger ((s.unlease i c pool).notify
        (j, .ok (freshConnection c.endpoint s.pool.nextId))) :=
      H.granting hopen hwaiters (hledger hchanged.shutDown) rfl rfl
    refine H.of_changed hchanged hledger' (H.keyed _) (H.available _) (fun hopen => ?_)
      (fun k hk => granting_others hmem rfl hk) (fun hshut => ?_)
      ((H.unique.perm (ids_drop hmem (hchanged.idle_same rfl))).sublist (sublist_cons_self ..)).cons
    · exact granting_balanced ((hbalanced hopen).replaced hwaiters) rfl
    rw [hopen] at hshut
    cases hshut
  | @passed _ j waiters hopen _ hwaiters hchanged =>
    have hledger' : Ledger ((s.unlease i c pool).notify (j, .ok { c with broken })) :=
      H.granting hopen hwaiters (hledger hchanged.shutDown) rfl hvalid
    refine H.of_changed hchanged hledger' (H.keyed _) (H.available _) (fun hopen => ?_)
      (fun k hk => granting_others hmem rfl hk) (fun hshut => ?_)
      (H.unique.perm (ids_drop hmem (hchanged.idle_same rfl)))
    · exact granting_balanced ((hbalanced hopen).passed hwaiters) rfl
    rw [hopen] at hshut
    cases hshut
  | returned hopen _ hwaiters hchanged =>
  refine H.of_changed hchanged (hledger hchanged.shutDown) (H.keyed _) (fun connection hc => ?_)
    (fun hopen => (hbalanced hopen).returned hwaiters) (fun k hk => ⟨hother k hk, rfl, rfl⟩)
    (fun hshut => ?_) (H.unique.perm (ids_giveBack hmem (hchanged.idle_returned rfl)))
  · rcases List.mem_append.1 hc with hc | hc
    · exact H.available _ connection hc
    rw [List.mem_singleton.1 hc]
    exact ⟨rfl, hvalid⟩
  rw [hopen] at hshut
  cases hshut

end Releasing

end PoolState

end Galay.Rpc
