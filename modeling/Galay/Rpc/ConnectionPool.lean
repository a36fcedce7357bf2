import Galay.Lib.AListMap
import Galay.Rpc.Base

/-!
# The connection pool of RPC clients (`galay-rpc/kernel/rpc_connection_pool.h`)

`ι` names the calls of `acquire`; a call stands for its `PoolWaiter`. `lastBucket` is the key of the
node that `m_last_bucket` points to. `nextId` counts on where `m_next_id` wraps around.
-/

namespace Galay.Rpc

structure RpcEndpoint where
  host : String := ""
  port : UInt16 := 0
  deriving DecidableEq, Repr

structure RpcConnectionPoolConfig where
  minConnectionsPerEndpoint : Nat := 0
  maxConnectionsPerEndpoint : Nat := 1
  maxWaitersPerEndpoint : Nat := 64
  deriving DecidableEq, Repr

structure RpcPooledConnection where
  endpoint : RpcEndpoint := {}
  id : UInt64 := 0
  broken : Bool := false
  valid : Bool := false
  deriving DecidableEq, Repr

abbrev RpcPoolAcquireResult := Except RpcError RpcPooledConnection

structure EndpointBucket (ι : Type*) where
  endpoint : RpcEndpoint
  available : List RpcPooledConnection := []
  waiters : List ι := []
  inUse : Nat := 0
  total : Nat := 0

structure RpcConnectionPool (ι : Type*) where
  config : RpcConnectionPoolConfig
  buckets : AList (fun _ : RpcEndpoint => EndpointBucket ι) := ∅
  lastBucket : Option RpcEndpoint := none
  nextId : Nat := 1
  shutDown : Bool := false

namespace RpcConnectionPool

variable {ι : Type*} (pool : RpcConnectionPool ι)

def normalize (config : RpcConnectionPoolConfig) : RpcConnectionPoolConfig :=
  let config := if config.maxConnectionsPerEndpoint = 0 then
    { config with maxConnectionsPerEndpoint := 1 } else config
  if config.minConnectionsPerEndpoint > config.maxConnectionsPerEndpoint then
    { config with minConnectionsPerEndpoint := config.maxConnectionsPerEndpoint }
  else config

def isValidEndpoint (endpoint : RpcEndpoint) : Bool := endpoint.host != "" && endpoint.port != 0

def invalidEndpoint : RpcError := ⟨.INVALID_REQUEST, "RPC endpoint is invalid"⟩

def poolShutDown : RpcError := ⟨.CONNECTION_CLOSED, "RPC connection pool is shut down"⟩

def poolExhausted : RpcError := ⟨.RESOURCE_EXHAUSTED, "RPC connection pool is exhausted"⟩

def waitersExhausted : RpcError :=
  ⟨.RESOURCE_EXHAUSTED, "RPC connection pool waiters exhausted"⟩

/-- What the waiters are notified with when the pool is shut down. -/
def closed : RpcError := ⟨.CONNECTION_CLOSED, "RPC connection pool shut down"⟩

def freshConnection (endpoint : RpcEndpoint) (nextId : Nat) : RpcPooledConnection :=
  ⟨endpoint, UInt64.ofNat nextId, false, true⟩

def newConnection (endpoint : RpcEndpoint) : RpcPooledConnection × RpcConnectionPool ι :=
  (freshConnection endpoint pool.nextId, { pool with nextId := pool.nextId + 1 })

/-! ## Buckets -/

/-- The bucket of a node; a node that is not there would be a new one. -/
def bucket (key : RpcEndpoint) : EndpointBucket ι :=
  (pool.buckets.lookup key).getD { endpoint := key }

def setBucket (key : RpcEndpoint) (bucket : EndpointBucket ι) : RpcConnectionPool ι :=
  { pool with buckets := pool.buckets.insert key bucket }

/-- The last bucket, where it is that of the endpoint. -/
def cached (endpoint : RpcEndpoint) : Option RpcEndpoint :=
  pool.lastBucket.filter fun key => (pool.bucket key).endpoint = endpoint

def bucketFor (endpoint : RpcEndpoint) : RpcEndpoint × RpcConnectionPool ι :=
  match pool.cached endpoint with
  | some key => (key, pool)
  | none =>
    let pool := if endpoint ∈ pool.buckets then pool else pool.setBucket endpoint { endpoint }
    (endpoint, { pool with lastBucket := some endpoint })

def findBucketMutable (endpoint : RpcEndpoint) : Option RpcEndpoint × RpcConnectionPool ι :=
  match pool.cached endpoint with
  | some key => (some key, pool)
  | none =>
    if endpoint ∈ pool.buckets then (some endpoint, { pool with lastBucket := some endpoint })
    else (none, pool)

/-! ## Operations -/

/-- The loop of `ensureEndpoint`. -/
def warmUp (config : RpcConnectionPoolConfig) (endpoint : RpcEndpoint) (bucket : EndpointBucket ι)
    (nextId : Nat) : EndpointBucket ι × Nat :=
  if bucket.total < config.minConnectionsPerEndpoint ∧
      bucket.total < config.maxConnectionsPerEndpoint then
    warmUp config endpoint { bucket with
      available := bucket.available ++ [freshConnection endpoint nextId]
      total := bucket.total + 1 } (nextId + 1)
  else (bucket, nextId)
termination_by config.minConnectionsPerEndpoint - bucket.total

def ensureEndpoint (endpoint : RpcEndpoint) : Except RpcError Unit × RpcConnectionPool ι :=
  if ¬ isValidEndpoint endpoint then (.error invalidEndpoint, pool)
  else if pool.shutDown then (.error poolShutDown, pool)
  else
    let (key, pool) := pool.bucketFor endpoint
    let (bucket, nextId) := warmUp pool.config endpoint (pool.bucket key) pool.nextId
    (.ok (), { pool with nextId }.setBucket key bucket)

def tryAcquire (endpoint : RpcEndpoint) : RpcPoolAcquireResult × RpcConnectionPool ι :=
  if ¬ isValidEndpoint endpoint then (.error invalidEndpoint, pool)
  else if pool.shutDown then (.error poolShutDown, pool)
  else
    let (key, pool) := pool.bucketFor endpoint
    let bucket := pool.bucket key
    match bucket.available with
    | connection :: available =>
      (.ok connection, pool.setBucket key { bucket with available, inUse := bucket.inUse + 1 })
    | [] =>
      if bucket.total < pool.config.maxConnectionsPerEndpoint then
        let pool := pool.setBucket key
          { bucket with total := bucket.total + 1, inUse := bucket.inUse + 1 }
        let (connection, pool) := pool.newConnection endpoint
        (.ok connection, pool)
      else (.error poolExhausted, pool)

/-- `acquire` up to its result or to the wait. -/
def acquire (i : ι) (endpoint : RpcEndpoint) :
    Option RpcPoolAcquireResult × RpcConnectionPool ι :=
  match pool.tryAcquire endpoint with
  | (.ok connection, pool) => (some (.ok connection), pool)
  | (.error error, pool) =>
    if error.code ≠ .RESOURCE_EXHAUSTED then (some (.error error), pool)
    else
      let (key, pool) := pool.bucketFor endpoint
      let bucket := pool.bucket key
      if bucket.waiters.length ≥ pool.config.maxWaitersPerEndpoint then
        (some (.error waitersExhausted), pool)
      else (none, pool.setBucket key { bucket with waiters := bucket.waiters ++ [i] })

/-- `wakeNextWaiter` without a connection: a new one for the first waiter. -/
def wakeNextWaiter (key : RpcEndpoint) : List (ι × RpcPoolAcquireResult) × RpcConnectionPool ι :=
  let bucket := pool.bucket key
  match bucket.waiters with
  | [] => ([], pool)
  | i :: waiters =>
    if pool.shutDown then ([], pool)
    else if bucket.total ≥ pool.config.maxConnectionsPerEndpoint then ([], pool)
    else
      let (replacement, pool) := pool.newConnection bucket.endpoint
      ([(i, .ok replacement)], pool.setBucket key { bucket with
        total := bucket.total + 1, waiters, inUse := bucket.inUse + 1 })

/-- The connection for the first waiter, or for the free list. -/
def passOn (key : RpcEndpoint) (connection : RpcPooledConnection) :
    List (ι × RpcPoolAcquireResult) × RpcConnectionPool ι :=
  let bucket := pool.bucket key
  match bucket.waiters with
  | i :: waiters =>
    ([(i, .ok connection)], pool.setBucket key { bucket with waiters, inUse := bucket.inUse + 1 })
  | [] => ([], pool.setBucket key { bucket with available := bucket.available ++ [connection] })

/-- The result, what waiters are notified with, and the pool. -/
def release (connection : RpcPooledConnection) :
    Except RpcError Unit × List (ι × RpcPoolAcquireResult) × RpcConnectionPool ι :=
  if ¬ connection.valid then
    (.error ⟨.INVALID_REQUEST, "RPC pooled connection is invalid"⟩, [], pool)
  else
    match pool.findBucketMutable connection.endpoint with
    | (none, pool) => (.error ⟨.INVALID_REQUEST, "RPC pooled endpoint is unknown"⟩, [], pool)
    | (some key, pool) =>
      let bucket := pool.bucket key
      let bucket := if bucket.inUse > 0 then { bucket with inUse := bucket.inUse - 1 } else bucket
      let dropped := if bucket.total > 0 then { bucket with total := bucket.total - 1 } else bucket
      if pool.shutDown then (.ok (), [], pool.setBucket key dropped)
      else if connection.broken then (.ok (), (pool.setBucket key dropped).wakeNextWaiter key)
      else (.ok (), (pool.setBucket key bucket).passOn key connection)

/-- Every waiter is notified, and every bucket emptied. -/
def shutdown : List (ι × RpcPoolAcquireResult) × RpcConnectionPool ι :=
  if pool.shutDown then ([], pool)
  else
    (pool.buckets.entries.flatMap fun entry => entry.2.waiters.map fun i => (i, .error closed),
      { pool with
        shutDown := true
        buckets := Lib.mapValues (fun bucket => { endpoint := bucket.endpoint }) pool.buckets })

end RpcConnectionPool

/-! ## Callers -/

/-- Where a call of `acquire` is. -/
inductive AcquireCall
  | idle
  | waiting
  /-- Its waiter has been notified, and it has not run on yet. -/
  | notified (result : RpcPoolAcquireResult)
  | returned (result : RpcPoolAcquireResult)

/-- The pool with its callers. Who holds a connection that has not been released, who has waited for
an endpoint, and which waiters were given a connection, is written down for the record. -/
structure PoolState (ι : Type*) where
  pool : RpcConnectionPool ι
  calls : ι → AcquireCall := fun _ => .idle
  leases : List (ι × RpcPooledConnection) := []
  arrivals : List (RpcEndpoint × ι) := []
  grants : List (ι × RpcPooledConnection) := []

inductive PoolEvent (ι : Type*)
  | ensureEndpoint (endpoint : RpcEndpoint)
  | acquire (i : ι) (endpoint : RpcEndpoint)
  | resume (i : ι)
  /-- A call gives its connection back, after it may have marked it as broken. -/
  | release (i : ι) (broken : Bool)
  | shutdown

namespace PoolState

open RpcConnectionPool

variable {ι : Type*} [DecidableEq ι] (s : PoolState ι)

def start (config : RpcConnectionPoolConfig) : PoolState ι :=
  { pool := { config := normalize config } }

def setCall (i : ι) (call : AcquireCall) : PoolState ι :=
  { s with calls := Function.update s.calls i call }

/-- A connection belongs to a call from now on. -/
def lease (i : ι) : RpcPoolAcquireResult → PoolState ι
  | .ok connection => { s with leases := (i, connection) :: s.leases }
  | .error _ => s

/-- `AsyncWaiter::notify`. -/
def notify (note : ι × RpcPoolAcquireResult) : PoolState ι :=
  let s := (s.setCall note.1 (.notified note.2)).lease note.1 note.2
  match note.2 with
  | .ok connection => { s with grants := s.grants ++ [(note.1, connection)] }
  | .error _ => s

/-- The state after an event, where the event can happen. -/
def step (s : PoolState ι) : PoolEvent ι → Option (PoolState ι)
  | .ensureEndpoint endpoint => some { s with pool := (s.pool.ensureEndpoint endpoint).2 }
  | .acquire i endpoint =>
    match s.calls i with
    | .idle =>
      match s.pool.acquire i endpoint with
      | (some result, pool) => some (({ s with pool }.setCall i (.returned result)).lease i result)
      | (none, pool) =>
        some ({ s with pool, arrivals := s.arrivals ++ [(endpoint, i)] }.setCall i .waiting)
    | _ => none
  | .resume i =>
    match s.calls i with
    | .notified result => some (s.setCall i (.returned result))
    | _ => none
  | .release i broken =>
    match s.calls i with
    | .returned (.ok connection) =>
      if (i, connection) ∈ s.leases then
        let s := { s with leases := s.leases.erase (i, connection) }
        let (_, notes, pool) :=
          s.pool.release { connection with broken := connection.broken || broken }
        some (notes.foldl notify { s with pool })
      else none
    | _ => none
  | .shutdown =>
    let (notes, pool) := s.pool.shutdown
    some (notes.foldl notify { s with pool })

def run (s : PoolState ι) (events : List (PoolEvent ι)) : Option (PoolState ι) :=
  events.foldlM step s

end PoolState

end Galay.Rpc
