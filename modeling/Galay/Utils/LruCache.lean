import Mathlib.Algebra.Group.Nat.Defs
import Mathlib.Data.List.AList

/-!
# The LRU cache (`galay-utils/cache/lru_cache.hpp`)

`LruCache` with its recency list, its index and its heap of expiry times. An entry of the list is
known by the address of its node, which is what the index holds. Each clock reading of a call is an
argument. Without a callback nobody hears of an eviction; here there is one, and what it has been
called with is recorded.
-/

namespace Galay.Utils

inductive EvictReason
  | Capacity
  | Expired
  | Removed
  | Cleared
  deriving DecidableEq, Repr

inductive ExpirationPolicy
  | ExpireAfterWrite
  | ExpireAfterAccess
  deriving DecidableEq, Repr

structure LruEntry (K V : Type) where
  address : Nat
  key : K
  value : V
  expiresAt : Option Int := none
  ttl : Option Int := none
  version : Nat
  deriving DecidableEq, Repr

structure Expiration where
  expiresAt : Option Int
  ttl : Option Int
  deriving DecidableEq, Repr

structure ExpireNode (K : Type) where
  expiresAt : Int
  key : K
  version : Nat
  deriving DecidableEq, Repr

/-- What `std::priority_queue` promises of its top; the choice between equal times is its own. -/
structure ExpireTop (K : Type) where
  top : List (ExpireNode K) → Option (ExpireNode K)
  top_nil : ∀ heap, top heap = none → heap = []
  top_mem : ∀ heap node, top heap = some node → node ∈ heap
  top_le : ∀ heap node, top heap = some node → ∀ other ∈ heap, node.expiresAt ≤ other.expiresAt

structure LruCache (K V : Type) where
  capacity : Nat
  defaultTtl : Option Int := none
  expirationPolicy : ExpirationPolicy := .ExpireAfterWrite
  /-- The most recent one comes first. -/
  items : List (LruEntry K V) := []
  index : AList fun _ : K => Nat := ∅
  expirations : List (ExpireNode K) := []
  nextVersion : Nat := 0
  /-- The nodes that have been made. -/
  allocated : Nat := 0
  evicted : List (LruEntry K V × EvictReason) := []

/-- `!isExpired`. -/
def Live (now : Int) (expiresAt : Option Int) : Prop := ∀ time, expiresAt = some time → now < time

instance (now : Int) (expiresAt : Option Int) : Decidable (Live now expiresAt) :=
  match expiresAt with
  | none => isTrue nofun
  | some time => decidable_of_iff (now < time) (by simp [Live])

def expirationFromTtl (ttl : Option Int) (now : Int) : Expiration where
  expiresAt := ttl.map (now + ·)
  ttl := ttl

/-- The expiration that an access gives, when it gives one. -/
def refreshed (policy : ExpirationPolicy) (expiration : Expiration) (now : Int) :
    Option Expiration :=
  match policy, expiration.ttl with
  | .ExpireAfterAccess, some ttl =>
    match expiration.expiresAt with
    | none => some ⟨some (now + ttl), some ttl⟩
    | some expiresAt =>
      let refreshInterval := ttl.tdiv 4
      let lastRefresh := expiresAt - ttl
      if 0 < refreshInterval ∧ now - lastRefresh < refreshInterval then none
      else some ⟨some (now + ttl), some ttl⟩
  | _, _ => none

namespace LruCache

variable [DecidableEq K]

section
variable (cache : LruCache K V)

variable (address : Nat)

/-- The entry that an iterator points to. -/
def item : Option (LruEntry K V) :=
  cache.items.find? fun entry => entry.address = address

/-- The list with the entry of an iterator changed. -/
def modifyItem (f : LruEntry K V → LruEntry K V) : LruCache K V :=
  { cache with
    items := cache.items.map fun entry => if entry.address = address then f entry else entry }

def notifyEvict (reason : EvictReason) : LruCache K V :=
  match cache.item address with
  | none => cache
  | some entry => { cache with evicted := cache.evicted ++ [(entry, reason)] }

def eraseEntry (key : K) (address : Nat) (reason : EvictReason) : LruCache K V :=
  let cache := cache.notifyEvict address reason
  { cache with
    index := cache.index.erase key
    items := cache.items.filter fun entry => entry.address ≠ address }

/-- `++m_nextVersion`. -/
def takeVersion : Nat × LruCache K V :=
  let version := (cache.nextVersion + 1) % 2 ^ 64
  (version, { cache with nextVersion := version })

def updateExpiration (expiration : Expiration) : LruCache K V :=
  let (version, cache) := cache.takeVersion
  let cache := cache.modifyItem address fun entry =>
    { entry with expiresAt := expiration.expiresAt, ttl := expiration.ttl, version }
  match expiration.expiresAt, cache.item address with
  | some expiresAt, some entry =>
    { cache with expirations := ⟨expiresAt, entry.key, entry.version⟩ :: cache.expirations }
  | _, _ => cache

def refreshExpirationAfterAccess (now : Int) : LruCache K V :=
  match cache.item address with
  | none => cache
  | some entry =>
    match refreshed cache.expirationPolicy ⟨entry.expiresAt, entry.ttl⟩ now with
    | none => cache
    | some expiration => cache.updateExpiration address expiration

def touch : LruCache K V :=
  match cache.item address with
  | none => cache
  | some entry =>
    { cache with items := entry :: cache.items.filter fun entry => entry.address ≠ address }

/-- The loops of `enforceCapacity` and `clear`: the last entries are taken out of the list. -/
def evictLoop (limit : Nat) (reason : EvictReason) : Nat → LruCache K V → LruCache K V
  | 0, cache => cache
  | fuel + 1, cache =>
    if limit < cache.items.length then
      match cache.items.getLast? with
      | none => cache
      | some last =>
        match cache.index.lookup last.key with
        | none => evictLoop limit reason fuel { cache with items := cache.items.dropLast }
        | some address => evictLoop limit reason fuel (cache.eraseEntry last.key address reason)
    else cache

def enforceCapacity : LruCache K V := evictLoop cache.capacity .Capacity cache.items.length cache

/-- `removeExpiredKey`, `removeCapacityKey`. -/
def removeKey (key : K) (reason : EvictReason) : LruCache K V :=
  match cache.index.lookup key with
  | none => cache
  | some address => cache.eraseEntry key address reason

def clear : LruCache K V :=
  { evictLoop 0 .Cleared cache.items.length cache with expirations := [] }

end

variable (heap : ExpireTop K) (cache : LruCache K V)

/-- The loop of `purgeExpiredImpl`. An iteration takes a node out of the heap. -/
def purgeLoop (now : Int) : Nat → LruCache K V → Nat × LruCache K V
  | 0, cache => (0, cache)
  | fuel + 1, cache =>
    match heap.top cache.expirations with
    | none => (0, cache)
    | some node =>
      if now < node.expiresAt then (0, cache)
      else
        let cache := { cache with expirations := cache.expirations.erase node }
        match cache.index.lookup node.key with
        | none => purgeLoop now fuel cache
        | some address =>
          match cache.item address with
          | none => purgeLoop now fuel cache
          | some entry =>
            if entry.version ≠ node.version ∨ entry.expiresAt ≠ some node.expiresAt then
              purgeLoop now fuel cache
            else
              let (removed, cache) := purgeLoop now fuel (cache.eraseEntry node.key address .Expired)
              (removed + 1, cache)

def purgeExpired (now : Int) : Nat × LruCache K V :=
  purgeLoop heap now cache.expirations.length cache

variable (key : K)

variable (value : V)

/-- An entry is put in front of the list. -/
def insertFront : LruCache K V :=
  let (version, cache) := cache.takeVersion
  { cache with
    items := { address := cache.allocated, key, value, version } :: cache.items
    allocated := cache.allocated + 1 }

/-- `putWithExpiration`, `emplaceWithExpiration`: the second builds the value in its place. -/
def putWithExpiration (expiration : Expiration) (purgeNow checkNow : Int) :
    Bool × LruCache K V :=
  let (_, cache) := cache.purgeExpired heap purgeNow
  if ¬ Live checkNow expiration.expiresAt then (false, cache.removeKey key .Expired)
  else if cache.capacity = 0 then (false, cache.removeKey key .Capacity)
  else
    match cache.index.lookup key with
    | some address =>
      let cache := cache.modifyItem address fun entry => { entry with value }
      let cache := cache.updateExpiration address expiration
      (true, cache.touch address)
    | none =>
      let address := cache.allocated
      let cache := cache.insertFront key value
      let cache := { cache with index := cache.index.insert key address }
      let cache := cache.updateExpiration address expiration
      (true, cache.enforceCapacity)

def put (ttlNow purgeNow checkNow : Int) : Bool × LruCache K V :=
  cache.putWithExpiration heap key value (expirationFromTtl cache.defaultTtl ttlNow) purgeNow checkNow

def putFor (ttl ttlNow purgeNow checkNow : Int) : Bool × LruCache K V :=
  cache.putWithExpiration heap key value (expirationFromTtl (some ttl) ttlNow) purgeNow checkNow

def putUntil (expiresAt purgeNow checkNow : Int) : Bool × LruCache K V :=
  cache.putWithExpiration heap key value ⟨some expiresAt, none⟩ purgeNow checkNow

def emplace (ttlNow purgeNow checkNow : Int) : Bool × LruCache K V :=
  cache.putWithExpiration heap key value (expirationFromTtl cache.defaultTtl ttlNow) purgeNow checkNow

variable {value}

/-- What the index finds, with its value. -/
def found : Option (Nat × V) :=
  (cache.index.lookup key).bind fun address =>
    (cache.item address).map fun entry => (address, entry.value)

def get (purgeNow accessNow : Int) : Option V × LruCache K V :=
  let (_, cache) := cache.purgeExpired heap purgeNow
  match cache.found key with
  | none => (none, cache)
  | some (address, value) =>
    (some value, (cache.touch address).refreshExpirationAfterAccess address accessNow)

variable (purgeNow : Int)

def peek : Option V × LruCache K V :=
  let (_, cache) := cache.purgeExpired heap purgeNow
  ((cache.found key).map (·.2), cache)

def contains : Bool × LruCache K V :=
  let (_, cache) := cache.purgeExpired heap purgeNow
  ((cache.index.lookup key).isSome, cache)

def remove : Bool × LruCache K V :=
  let (_, cache) := cache.purgeExpired heap purgeNow
  match cache.index.lookup key with
  | none => (false, cache)
  | some address => (true, cache.eraseEntry key address .Removed)

def size : Nat × LruCache K V :=
  let (_, cache) := cache.purgeExpired heap purgeNow
  (cache.items.length, cache)

def setCapacity (capacity : Nat) (purgeNow : Int) : LruCache K V :=
  let cache : LruCache K V := { cache with capacity }
  let (_, cache) := cache.purgeExpired heap purgeNow
  cache.enforceCapacity

end LruCache

end Galay.Utils
