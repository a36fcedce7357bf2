import Galay.Lib.OrderedMap
import Mathlib.Order.Lattice.Nat

/-!
# Multi-version concurrency control (`galay-utils/algorithm/mvcc.hpp`)

`Mvcc`, `Snapshot` and `Transaction`, with atomic calls. A value is what its pointer points to; a null
pointer is `none`.
-/

namespace Galay.Utils

open Galay.Lib

/-- `uint64_t`. -/
abbrev Version := Nat

structure VersionedValue (T : Type) where
  version : Version
  value : Option T
  deleted : Bool
  deriving DecidableEq, Repr

structure Mvcc (T : Type) where
  currentVersion : Version := 0
  versions : OrderedMap Version (VersionedValue T) := .empty

namespace Mvcc

variable {T : Type} (mvcc : Mvcc T)

/-- What a version shows. -/
def shown : Option (Version × VersionedValue T) → Option T
  | none => none
  | some (_, versioned) => if versioned.deleted then none else versioned.value

def getValue (version : Version) : Option T := shown (mvcc.versions.floor version)

def getCurrentValue : Option T := mvcc.getValue mvcc.currentVersion

/-- `++m_currentVersion`. -/
def nextVersion : Version := (mvcc.currentVersion + 1) % 2 ^ 64

/-- A new version is stored. -/
def store (value : Option T) (deleted : Bool) : Version × Mvcc T :=
  let newVersion := mvcc.nextVersion
  (newVersion, {
    currentVersion := newVersion
    versions := mvcc.versions.insert newVersion ⟨newVersion, value, deleted⟩ })

def putValue (value : Option T) : Version × Mvcc T := mvcc.store value false

def updateValue (updateFn : Option T → Option T) : Version × Mvcc T :=
  let current := shown mvcc.versions.entries.getLast?
  mvcc.store (updateFn current) false

def compareAndSwap (expectedVersion : Version) (newValue : Option T) : Version × Mvcc T :=
  if mvcc.currentVersion ≠ expectedVersion then (0, mvcc) else mvcc.store newValue false

def removeValue (version : Version) : Bool × Mvcc T :=
  if mvcc.versions.find? version = none then (false, mvcc)
  else (true, { mvcc with versions := mvcc.versions.erase version })

def deleteValue : Version × Mvcc T := mvcc.store none true

def gc (keepVersions : Nat) : Mvcc T :=
  let drop := mvcc.versions.entries.length - keepVersions
  { mvcc with versions := ⟨mvcc.versions.entries.drop drop, mvcc.versions.sorted.drop⟩ }

def gcOlderThan (olderThan : Version) : Mvcc T :=
  { mvcc with
    versions := ⟨mvcc.versions.lowerBound olderThan,
      mvcc.versions.sorted.sublist (List.dropWhile_sublist _)⟩ }

def clear : Mvcc T := {}

end Mvcc

structure Snapshot where
  version : Version
  deriving DecidableEq, Repr

def Snapshot.read {T : Type} (snapshot : Snapshot) (mvcc : Mvcc T) : Option T :=
  mvcc.getValue snapshot.version

structure Transaction (T : Type) where
  startVersion : Version
  pendingValue : Option T := none
  committed : Bool := false
  deriving DecidableEq, Repr

namespace Transaction

variable {T : Type} (transaction : Transaction T)

def new (mvcc : Mvcc T) : Transaction T where
  startVersion := mvcc.currentVersion

def read (mvcc : Mvcc T) : Option T := mvcc.getValue transaction.startVersion

def write (value : Option T) : Transaction T := { transaction with pendingValue := value }

/-- The pending value is given away, whether the exchange succeeds or not. -/
def commit (mvcc : Mvcc T) : Bool × Transaction T × Mvcc T :=
  if transaction.committed ∨ transaction.pendingValue = none then (false, transaction, mvcc)
  else
    let (newVersion, mvcc) := mvcc.compareAndSwap transaction.startVersion transaction.pendingValue
    let committed := decide (newVersion ≠ 0)
    (committed, { transaction with pendingValue := none, committed }, mvcc)

end Transaction

end Galay.Utils

/-!
# Transactions and snapshots over whole runs

A commit compares version numbers. It is right as long as the number stands for the value: a version
that is dropped changes the value and not the number, and after `clear` the numbers come again.
-/

namespace Galay.Utils

open Galay.Lib

variable {T : Type}

/-- A transaction with what was current when it began. -/
structure MvccSession (T : Type) where
  transaction : Transaction T
  begun : Option T
  /-- The writes that had taken effect. -/
  writesBefore : Nat
  /-- Since then, the number has not always stood for the value. -/
  disturbed : Bool := false

/-- A snapshot with what it showed first. -/
structure MvccReading (T : Type) where
  snapshot : Snapshot
  taken : Option T
  disturbed : Bool

structure MvccState (T : Type) where
  mvcc : Mvcc T := {}
  writes : Nat := 0
  sessions : List (MvccSession T) := []
  readings : List (MvccReading T) := []

inductive MvccCall (T : Type)
  | begin
  | read (session : Nat)
  | write (session : Nat) (value : Option T)
  | commit (session : Nat)
  | finish (session : Nat)
  | snapshot (version : Version)
  | putValue (value : Option T)
  | updateValue (updateFn : Option T → Option T)
  | compareAndSwap (expectedVersion : Version) (newValue : Option T)
  | removeValue (version : Version)
  | deleteValue
  | gc (keepVersions : Nat)
  | gcOlderThan (olderThan : Version)
  | clear

namespace Mvcc

/-- The version that is current is not among the ones that are kept. -/
def dropsCurrent (mvcc kept : Mvcc T) : Bool :=
  match mvcc.versions.floor mvcc.currentVersion with
  | none => false
  | some visible => !kept.versions.entries.any fun entry => entry.1 = visible.1

end Mvcc

namespace MvccState

variable (state : MvccState T)

/-- What a call makes of the container. -/
def effect : MvccCall T → Mvcc T
  | .commit i =>
    match state.sessions[i]? with
    | none => state.mvcc
    | some session => (session.transaction.commit state.mvcc).2.2
  | .putValue value => (state.mvcc.putValue value).2
  | .updateValue updateFn => (state.mvcc.updateValue updateFn).2
  | .compareAndSwap expectedVersion newValue =>
    (state.mvcc.compareAndSwap expectedVersion newValue).2
  | .removeValue version => (state.mvcc.removeValue version).2
  | .deleteValue => state.mvcc.deleteValue.2
  | .gc keepVersions => state.mvcc.gc keepVersions
  | .gcOlderThan olderThan => state.mvcc.gcOlderThan olderThan
  | .clear => Mvcc.clear
  | _ => state.mvcc

/-- The call is a write that takes effect. -/
def writesNow : MvccCall T → Bool
  | .putValue _ | .updateValue _ | .deleteValue => true
  | .compareAndSwap expectedVersion _ => state.mvcc.currentVersion = expectedVersion
  | .commit i =>
    match state.sessions[i]? with
    | none => false
    | some session =>
      ¬ (session.transaction.committed ∨ session.transaction.pendingValue = none) ∧
        state.mvcc.currentVersion = session.transaction.startVersion
  | _ => false

/-- The next version number is not a new one. -/
def wraps (call : MvccCall T) : Bool :=
  state.writesNow call && state.mvcc.currentVersion + 1 == 2 ^ 64

/-- After the call, the current number need not stand for the value it stood for. -/
def disturbsSessions : MvccCall T → Bool
  | .removeValue version => state.mvcc.dropsCurrent (state.mvcc.removeValue version).2
  | .gc keepVersions => state.mvcc.dropsCurrent (state.mvcc.gc keepVersions)
  | .gcOlderThan olderThan => state.mvcc.dropsCurrent (state.mvcc.gcOlderThan olderThan)
  | .clear => true
  | call => state.wraps call

def disturbsReadings : MvccCall T → Bool
  | .removeValue _ | .gc _ | .gcOlderThan _ | .clear => true
  | call => state.wraps call

/-- What a call makes of a list of sessions. -/
def update (sessions : List (MvccSession T)) : MvccCall T → List (MvccSession T)
  | .begin =>
    sessions ++
      [{ transaction := .new state.mvcc, begun := state.mvcc.getCurrentValue,
         writesBefore := state.writes }]
  | .write i value =>
    match sessions[i]? with
    | none => sessions
    | some session =>
      sessions.set i { session with transaction := session.transaction.write value }
  | .commit i =>
    match sessions[i]? with
    | none => sessions
    | some session =>
      sessions.set i { session with transaction := (session.transaction.commit state.mvcc).2.1 }
  | .finish i => sessions.eraseIdx i
  | _ => sessions

def call (next : MvccCall T) : MvccState T where
  mvcc := state.effect next
  writes := if state.writesNow next then state.writes + 1 else state.writes
  sessions := state.update
    (state.sessions.map fun session =>
      { session with disturbed := session.disturbed || state.disturbsSessions next }) next
  readings :=
    let readings := state.readings.map fun reading =>
      { reading with disturbed := reading.disturbed || state.disturbsReadings next }
    match next with
    | .snapshot version =>
      readings ++
        [{ snapshot := ⟨version⟩, taken := state.mvcc.getValue version,
           disturbed := state.mvcc.currentVersion < version }]
    | _ => readings

end MvccState

/-- The states that calls come to. -/
inductive MvccRun : MvccState T → Prop
  | new : MvccRun {}
  | call {state : MvccState T} (next : MvccCall T) (hrun : MvccRun state) : MvccRun (state.call next)

/-! ## What a call does to the container -/

/-- The entries that are left have all been there before. -/
structure Kept (mvcc kept : Mvcc T) : Prop where
  version : kept.currentVersion = mvcc.currentVersion
  sub : ∀ entry ∈ kept.versions.entries, entry ∈ mvcc.versions.entries

theorem kept_removeValue (mvcc : Mvcc T) (version : Version) :
    Kept mvcc (mvcc.removeValue version).2 := by
  unfold Mvcc.removeValue
  split
  · exact ⟨rfl, fun _ hmem => hmem⟩
  exact ⟨rfl, fun _ hmem => (OrderedMap.mem_erase.1 hmem).1⟩

theorem kept_gc (mvcc : Mvcc T) (keepVersions : Nat) : Kept mvcc (mvcc.gc keepVersions) :=
  ⟨rfl, fun _ hmem => List.mem_of_mem_drop hmem⟩

theorem kept_gcOlderThan (mvcc : Mvcc T) (olderThan : Version) :
    Kept mvcc (mvcc.gcOlderThan olderThan) :=
  ⟨rfl, fun _ hmem => (List.dropWhile_sublist _).mem hmem⟩

theorem Kept.getCurrentValue {kept : Mvcc T} (h : Kept mvcc kept)
    (hdrops : mvcc.dropsCurrent kept = false) : kept.getCurrentValue = mvcc.getCurrentValue := by
  unfold Mvcc.getCurrentValue Mvcc.getValue
  rw [h.version]
  refine congrArg Mvcc.shown (OrderedMap.floor_of_subset (fun visible hvisible => ?_) h.sub)
  simp only [Mvcc.dropsCurrent, hvisible, Bool.not_eq_false', List.any_eq_true,
    decide_eq_true_eq] at hdrops
  obtain ⟨entry, hmem, hkey⟩ := hdrops
  have hentry := (OrderedMap.floor_eq_some_iff.1 hvisible).1
  rw [← OrderedMap.eq_of_key_eq (h.sub entry hmem) hentry hkey]
  exact hmem

/-- A commit that takes effect stores a version, and another one leaves the container as it is. -/
theorem commit_effect (transaction : Transaction T) (mvcc : Mvcc T) :
    (transaction.commit mvcc).2.2 =
      if ¬ (transaction.committed ∨ transaction.pendingValue = none) ∧
          mvcc.currentVersion = transaction.startVersion then
        (mvcc.store transaction.pendingValue false).2
      else mvcc := by
  unfold Transaction.commit
  by_cases hpend : transaction.committed ∨ transaction.pendingValue = none
  · rw [if_pos hpend, if_neg (fun h => h.1 hpend)]
  rw [if_neg hpend]
  simp only [Mvcc.compareAndSwap]
  by_cases hver : mvcc.currentVersion = transaction.startVersion
  · rw [if_neg (fun h => h hver), if_pos ⟨hpend, hver⟩]
  rw [if_pos hver, if_neg (fun h => hver h.2)]

inductive EffectKind (state : MvccState T) (next : MvccCall T) : Prop
  | stored (value : Option T) (deleted : Bool) (hwrites : state.writesNow next = true)
    (heffect : state.effect next = (state.mvcc.store value deleted).2)
    (hsessions : state.disturbsSessions next = state.wraps next)
    (hreadings : state.disturbsReadings next = state.wraps next)
  | same (hwrites : state.writesNow next = false) (heffect : state.effect next = state.mvcc)
  | dropped (hwrites : state.writesNow next = false) (hkept : Kept state.mvcc (state.effect next))
    (hsessions : state.disturbsSessions next = state.mvcc.dropsCurrent (state.effect next))
    (hreadings : state.disturbsReadings next = true)
  | cleared (heffect : state.effect next = Mvcc.clear)
    (hsessions : state.disturbsSessions next = true)
    (hreadings : state.disturbsReadings next = true)

theorem effectKind (state : MvccState T) (next : MvccCall T) : EffectKind state next := by
  cases next with
  | begin | read | write | finish | snapshot => exact .same rfl rfl
  | putValue | updateValue | deleteValue => exact .stored _ _ rfl rfl rfl rfl
  | compareAndSwap expectedVersion newValue =>
    by_cases hver : state.mvcc.currentVersion = expectedVersion
    · refine .stored newValue false (decide_eq_true hver) ?_ rfl rfl
      exact congrArg Prod.snd (if_neg (fun h => h hver))
    refine .same (decide_eq_false hver) ?_
    exact congrArg Prod.snd (if_pos hver)
  | commit i =>
    cases hsession : state.sessions[i]? with
    | none =>
      refine .same ?_ ?_
      · simp only [MvccState.writesNow, hsession]
      simp only [MvccState.effect, hsession]
    | some session =>
    have heffect : state.effect (.commit i) = (session.transaction.commit state.mvcc).2.2 := by
      simp only [MvccState.effect, hsession]
    rw [commit_effect] at heffect
    by_cases hcommits : ¬ (session.transaction.committed ∨
        session.transaction.pendingValue = none) ∧
        state.mvcc.currentVersion = session.transaction.startVersion
    · rw [if_pos hcommits] at heffect
      refine .stored _ _ ?_ heffect rfl rfl
      simp only [MvccState.writesNow, hsession]
      exact decide_eq_true hcommits
    rw [if_neg hcommits] at heffect
    refine .same ?_ heffect
    simp only [MvccState.writesNow, hsession]
    exact decide_eq_false hcommits
  | removeValue version => exact .dropped rfl (kept_removeValue state.mvcc version) rfl rfl
  | gc keepVersions => exact .dropped rfl (kept_gc state.mvcc keepVersions) rfl rfl
  | gcOlderThan olderThan => exact .dropped rfl (kept_gcOlderThan state.mvcc olderThan) rfl rfl
  | clear => exact .cleared rfl rfl rfl

/-! ## The invariants -/

/-- As long as a session is not disturbed, the number it began with stands for its value. -/
def MvccSession.Faithful (session : MvccSession T) (state : MvccState T) : Prop :=
  session.disturbed = false →
    session.transaction.startVersion ≤ state.mvcc.currentVersion ∧
      (session.transaction.startVersion = state.mvcc.currentVersion →
        state.mvcc.getCurrentValue = session.begun ∧ state.writes = session.writesBefore)

def MvccReading.Faithful (reading : MvccReading T) (state : MvccState T) : Prop :=
  reading.disturbed = false →
    reading.snapshot.version ≤ state.mvcc.currentVersion ∧
      reading.snapshot.read state.mvcc = reading.taken

structure Isolated (state : MvccState T) : Prop where
  bounded : state.mvcc.currentVersion < 2 ^ 64
  sessions : ∀ session ∈ state.sessions, session.Faithful state
  readings : ∀ reading ∈ state.readings, reading.Faithful state

variable {state : MvccState T} {next : MvccCall T}

section

variable (h : Isolated state)

include h

theorem Isolated.store_version (value : Option T) (deleted : Bool)
    (hwrites : state.writesNow next = true) (hwraps : state.wraps next = false) :
    (state.mvcc.store value deleted).2.currentVersion = state.mvcc.currentVersion + 1 := by
  rw [MvccState.wraps, hwrites, Bool.true_and, beq_eq_false_iff_ne] at hwraps
  exact Nat.mod_eq_of_lt (Nat.lt_of_le_of_ne h.bounded hwraps)

theorem Isolated.call_bounded : (state.effect next).currentVersion < 2 ^ 64 := by
  cases effectKind state next with
  | stored value deleted hwrites heffect =>
    rw [heffect]
    exact Nat.mod_lt _ (Nat.two_pow_pos 64)
  | same hwrites heffect =>
    rw [heffect]
    exact h.bounded
  | dropped hwrites hkept =>
    rw [hkept.version]
    exact h.bounded
  | cleared heffect =>
  rw [heffect]
  exact Nat.two_pow_pos 64

theorem Isolated.session {session : MvccSession T} (hmem : session ∈ state.sessions) :
    MvccSession.Faithful
      { session with disturbed := session.disturbed || state.disturbsSessions next }
      (state.call next) := by
  intro hdisturbed
  obtain ⟨hbefore, hnow⟩ := Bool.or_eq_false_iff.1 hdisturbed
  obtain ⟨hle, hcur⟩ := h.sessions session hmem hbefore
  simp only [MvccState.call]
  cases effectKind state next with
  | stored value deleted hwrites heffect hsessions =>
    have hver := h.store_version value deleted hwrites (hsessions.symm.trans hnow)
    rw [heffect, hver]
    exact ⟨Nat.le_succ_of_le hle, fun heq => absurd heq (Nat.ne_of_lt (Nat.lt_succ_of_le hle))⟩
  | same hwrites heffect =>
    rw [heffect, hwrites]
    exact ⟨hle, hcur⟩
  | dropped hwrites hkept hsessions =>
    rw [hkept.version, hwrites, hkept.getCurrentValue (hsessions.symm.trans hnow)]
    exact ⟨hle, hcur⟩
  | cleared heffect hsessions => exact absurd (hsessions.symm.trans hnow) nofun

theorem Isolated.reading {reading : MvccReading T} (hmem : reading ∈ state.readings) :
    MvccReading.Faithful
      { reading with disturbed := reading.disturbed || state.disturbsReadings next }
      (state.call next) := by
  intro hdisturbed
  obtain ⟨hbefore, hnow⟩ := Bool.or_eq_false_iff.1 hdisturbed
  obtain ⟨hle, hread⟩ := h.readings reading hmem hbefore
  simp only [MvccState.call, Snapshot.read]
  cases effectKind state next with
  | stored value deleted hwrites heffect hsessions hreadings =>
    have hver := h.store_version value deleted hwrites (hreadings.symm.trans hnow)
    rw [heffect, hver]
    refine ⟨Nat.le_succ_of_le hle, Eq.trans ?_ hread⟩
    refine congrArg Mvcc.shown (OrderedMap.floor_congr fun entry hentry => ?_)
    have hne : entry.1 ≠ state.mvcc.nextVersion := by
      rw [show state.mvcc.nextVersion = state.mvcc.currentVersion + 1 from hver]
      exact Nat.ne_of_lt (Nat.lt_succ_of_le (Nat.le_trans hentry hle))
    rw [Mvcc.store, OrderedMap.mem_insert]
    constructor
    · rintro (rfl | ⟨hmem, -⟩)
      · exact absurd rfl hne
      exact hmem
    exact fun hmem => .inr ⟨hmem, hne⟩
  | same hwrites heffect =>
    rw [heffect]
    exact ⟨hle, hread⟩
  | dropped hwrites hkept hsessions hreadings => exact absurd (hreadings.symm.trans hnow) nofun
  | cleared heffect hsessions hreadings => exact absurd (hreadings.symm.trans hnow) nofun

end

/-- A session is faithful by what it began with, whatever is pending. -/
theorem MvccSession.Faithful.congr {session other : MvccSession T} (h : session.Faithful state)
    (hver : other.transaction.startVersion = session.transaction.startVersion)
    (hbegun : other.begun = session.begun) (hwrites : other.writesBefore = session.writesBefore)
    (hdisturbed : other.disturbed = session.disturbed) : other.Faithful state := by
  unfold MvccSession.Faithful
  rw [hver, hbegun, hwrites, hdisturbed]
  exact h

theorem commit_startVersion (transaction : Transaction T) (mvcc : Mvcc T) :
    (transaction.commit mvcc).2.1.startVersion = transaction.startVersion := by
  unfold Transaction.commit
  split <;> rfl

/-- What is done to the list of sessions does not touch what they began with. -/
theorem update_faithful (hsessions : ∀ session ∈ sessions, session.Faithful (state.call next)) :
    ∀ session ∈ state.update sessions next, session.Faithful (state.call next) := by
  intro session hmem
  have hset {i : Nat} {old : MvccSession T} {transaction : Transaction T}
      (hold : sessions[i]? = some old)
      (hver : transaction.startVersion = old.transaction.startVersion)
      (hmem : session ∈ sessions.set i { old with transaction }) :
      session.Faithful (state.call next) := by
    rcases List.mem_or_eq_of_mem_set hmem with hmem | rfl
    · exact hsessions session hmem
    exact (hsessions old (List.mem_of_getElem? hold)).congr hver rfl rfl rfl
  cases next with
  | begin =>
    rcases List.mem_append.1 hmem with hmem | hmem
    · exact hsessions session hmem
    rw [List.mem_singleton.1 hmem]
    exact fun _ => ⟨Nat.le_refl _, fun _ => ⟨rfl, rfl⟩⟩
  | write i value =>
    simp only [MvccState.update] at hmem
    split at hmem
    · exact hsessions session hmem
    next old hold =>
    have hver : (old.transaction.write value).startVersion = old.transaction.startVersion := rfl
    exact hset hold hver hmem
  | commit i =>
    simp only [MvccState.update] at hmem
    split at hmem
    · exact hsessions session hmem
    next old hold => exact hset hold (commit_startVersion old.transaction state.mvcc) hmem
  | finish i => exact hsessions session (List.mem_of_mem_eraseIdx hmem)
  | _ => exact hsessions session hmem

theorem Isolated.call (h : Isolated state) : Isolated (state.call next) where
  bounded := h.call_bounded
  sessions := by
    refine update_faithful fun session hmem => ?_
    obtain ⟨old, hold, rfl⟩ := List.mem_map.1 hmem
    exact h.session hold
  readings reading hmem := by
    have hold (hmem : reading ∈ state.readings.map fun reading =>
        { reading with disturbed := reading.disturbed || state.disturbsReadings next }) :
        reading.Faithful (state.call next) := by
      obtain ⟨old, hold, rfl⟩ := List.mem_map.1 hmem
      exact h.reading hold
    cases next with
    | snapshot version =>
      rcases List.mem_append.1 hmem with hmem | hmem
      · exact hold hmem
      rw [List.mem_singleton.1 hmem]
      exact fun hdisturbed => ⟨Nat.le_of_not_lt (of_decide_eq_false hdisturbed), rfl⟩
    | _ => exact hold hmem

theorem MvccRun.isolated (hrun : MvccRun state) : Isolated state := by
  induction hrun with
  | new => exact ⟨Nat.two_pow_pos 64, nofun, nofun⟩
  | call next hrun ih => exact ih.call

/-! ## The law -/

theorem startVersion_of_commit {transaction : Transaction T}
    (hcommit : (transaction.commit mvcc).1 = true) :
    transaction.startVersion = mvcc.currentVersion := by
  unfold Transaction.commit at hcommit
  split at hcommit
  · nomatch hcommit
  by_contra hne
  have hswap : mvcc.compareAndSwap transaction.startVersion transaction.pendingValue = (0, mvcc) :=
    if_pos (Ne.symm hne)
  rw [hswap] at hcommit
  nomatch hcommit

/-- A transaction that commits has not lost an update, and a snapshot shows what it showed first,
unless it was disturbed. -/
theorem mvcc_of_undisturbed (hrun : MvccRun state) :
    (∀ session ∈ state.sessions, session.disturbed = false →
      (session.transaction.commit state.mvcc).1 = true →
        state.mvcc.getCurrentValue = session.begun ∧ state.writes = session.writesBefore) ∧
    ∀ reading ∈ state.readings, reading.disturbed = false →
      reading.snapshot.read state.mvcc = reading.taken := by
  have h := hrun.isolated
  refine ⟨fun session hmem hdisturbed hcommit => ?_, fun reading hmem hdisturbed => ?_⟩
  · exact (h.sessions session hmem hdisturbed).2 (startVersion_of_commit hcommit)
  · exact (h.readings reading hmem hdisturbed).2

/-- The state after some calls. -/
def mvccAfter (calls : List (MvccCall T)) : MvccState T :=
  calls.foldl MvccState.call {}

theorem mvccRun_after (calls : List (MvccCall T)) : MvccRun (mvccAfter calls) := by
  have hfoldl (calls : List (MvccCall T)) (state : MvccState T) (hrun : MvccRun state) :
      MvccRun (calls.foldl MvccState.call state) := by
    induction calls generalizing state with
    | nil => exact hrun
    | cons next calls ih => exact ih _ (hrun.call next)
  exact hfoldl calls {} .new

/-- A transaction over the second of two versions, and a snapshot of it. -/
def quietCalls : List (MvccCall Nat) :=
  [.putValue (some 5), .putValue (some 6), .begin, .snapshot 2, .write 0 (some 7)]

theorem mvcc_of_quietCalls :
    ∃ session reading,
      (mvccAfter quietCalls).sessions = [session] ∧ (mvccAfter quietCalls).readings = [reading] ∧
      (session.transaction.commit (mvccAfter quietCalls).mvcc).1 = true ∧
      (mvccAfter quietCalls).mvcc.getCurrentValue = session.begun ∧
      reading.snapshot.read (mvccAfter quietCalls).mvcc = reading.taken := by
  obtain ⟨hsessions, hreadings⟩ := mvcc_of_undisturbed (mvccRun_after quietCalls)
  refine ⟨_, _, rfl, rfl, by decide, ?_, ?_⟩
  · exact (hsessions _ List.mem_cons_self rfl (by decide)).1
  · exact hreadings _ List.mem_cons_self rfl

/-- Another value has been written when the numbers come again after `clear`, and when the current
version is removed another value is current under the same number. -/
theorem mvcc_lost_update :
    (∃ state : MvccState Nat, MvccRun state ∧ ∃ session ∈ state.sessions,
      (session.transaction.commit state.mvcc).1 = true ∧ session.begun = some 5 ∧
      state.mvcc.getCurrentValue = some 6) ∧
    ∃ state : MvccState Nat, MvccRun state ∧ ∃ session ∈ state.sessions,
      (session.transaction.commit state.mvcc).1 = true ∧ session.begun = some 6 ∧
      state.mvcc.getCurrentValue = some 5 := by
  constructor
  · refine ⟨_, mvccRun_after [.putValue (some 5), .begin, .write 0 (some 7), .clear,
      .putValue (some 6)], _, List.mem_cons_self, ?_⟩
    decide
  refine ⟨_, mvccRun_after [.putValue (some 5), .putValue (some 6), .begin, .write 0 (some 7),
    .removeValue 2], _, List.mem_cons_self, ?_⟩
  decide

end Galay.Utils
