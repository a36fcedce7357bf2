import Mathlib.Data.List.Basic

/-!
# The registrations of the epoll reactor (`galay-kernel/core/epoll_reactor.cc`)

`ι` names the controllers. Beside the reactor stands what the kernel reports of each descriptor, which
changes with the outcomes of `epoll_ctl`. These are given from outside: `none` for success, otherwise the
`errno`. A call that has been interrupted is made again, and its outcome is that of the last attempt.
-/

namespace Galay.Kernel

abbrev EpollEvents := BitVec 32

def EPOLLIN : EpollEvents := 0x001
def EPOLLOUT : EpollEvents := 0x004
def EPOLLET : EpollEvents := 0x80000000

def ENOENT : Nat := 2

inductive EpollCtl
  | ADD
  | MOD
  | DEL
  deriving DecidableEq, Repr

/-- How `epoll_ctl` ends for each descriptor. -/
abbrev EpollOutcomes := EpollCtl → Nat → Option Nat

namespace IOEventType

def INVALID : BitVec 32 := 0
def ACCEPT : BitVec 32 := 1 <<< 0
def CONNECT : BitVec 32 := 1 <<< 1
def RECV : BitVec 32 := 1 <<< 2
def SEND : BitVec 32 := 1 <<< 3
def READV : BitVec 32 := 1 <<< 4
def WRITEV : BitVec 32 := 1 <<< 5
def SENDFILE : BitVec 32 := 1 <<< 6
def FILEREAD : BitVec 32 := 1 <<< 7
def FILEWRITE : BitVec 32 := 1 <<< 8
def FILEWATCH : BitVec 32 := 1 <<< 9
def RECVFROM : BitVec 32 := 1 <<< 10
def SENDTO : BitVec 32 := 1 <<< 11
def SEQUENCE : BitVec 32 := 1 <<< 12

end IOEventType

/-- `sequenceSlotMask` of the two slots. -/
def sequenceReadMask : BitVec 8 := 1 <<< 0
def sequenceWriteMask : BitVec 8 := 1 <<< 1

open IOEventType in
def ioTypeToEpollEvents (type : BitVec 32) : EpollEvents :=
  let events := EPOLLET
  let events :=
    if type &&& (ACCEPT ||| RECV ||| READV ||| RECVFROM ||| FILEREAD ||| FILEWATCH) ≠ 0
    then events ||| EPOLLIN else events
  if type &&& (CONNECT ||| SEND ||| WRITEV ||| SENDTO ||| SENDFILE ||| FILEWRITE) ≠ 0
  then events ||| EPOLLOUT else events

def sequenceInterestToEpollEvents (mask : BitVec 8) : EpollEvents :=
  let events := if mask &&& sequenceReadMask ≠ 0 then EPOLLET ||| EPOLLIN else EPOLLET
  if mask &&& sequenceWriteMask ≠ 0 then events ||| EPOLLOUT else events

/-- What the reactor has to do with of a controller. -/
structure IOController where
  handle : Option Nat := none
  type : BitVec 32 := IOEventType.INVALID
  sequenceInterestMask : BitVec 8 := 0
  /-- What `collectSequenceInterestMask` gives for its awaitables. -/
  activeSequences : BitVec 8 := 0
  persistentEvents : EpollEvents := 0
  registeredEvents : EpollEvents := 0
  /-- The registration entry that it is bound to. -/
  registrationOwnerSlot : Option Nat := none

def IOController.buildEvents (controller : IOController) : EpollEvents :=
  let events := ioTypeToEpollEvents controller.type ||| controller.persistentEvents
  if controller.type &&& IOEventType.SEQUENCE = 0 then events
  else events ||| sequenceInterestToEpollEvents controller.sequenceInterestMask

structure PendingChange where
  entry : Nat
  events : EpollEvents

/-- Registration entries keep their address when they are retired, so no number stands for two. -/
structure EpollReactor (ι : Type*) where
  controllers : ι → IOController := fun _ => {}
  registrationEntries : Nat → Option Nat := fun _ => none
  /-- `RegistrationEntry::controller`. -/
  owner : Nat → Option ι := fun _ => none
  entriesMade : Nat := 0
  pendingChanges : List PendingChange := []
  lastError : Option Nat := none
  /-- What the kernel reports of a descriptor. -/
  interest : Nat → Option EpollEvents := fun _ => none
  -- The rest is for the record.
  /-- The events last requested. -/
  requested : ι → EpollEvents := fun _ => EPOLLET
  /-- After a flush, the controller for which it has failed, if it has. -/
  lastFlush : Option (Option ι) := none

namespace EpollReactor

variable {ι : Type*} [DecidableEq ι]

def setController (reactor : EpollReactor ι) (i : ι) (controller : IOController) : EpollReactor ι :=
  { reactor with controllers := Function.update reactor.controllers i controller }

/-! ## Registration entries -/

variable (reactor : EpollReactor ι)

def releaseRegistrationOwnerSlot (i : ι) : EpollReactor ι :=
  let controller := reactor.controllers i
  match controller.registrationOwnerSlot with
  | none => reactor
  | some entry =>
    let reactor := reactor.setController i { controller with registrationOwnerSlot := none }
    if reactor.owner entry = some i then
      { reactor with owner := Function.update reactor.owner entry none }
    else reactor

def bindRegistrationOwnerSlot (i : ι) (entry : Nat) : EpollReactor ι :=
  if (reactor.controllers i).registrationOwnerSlot = some entry then
    { reactor with owner := Function.update reactor.owner entry (some i) }
  else
    let reactor := reactor.releaseRegistrationOwnerSlot i
    let reactor :=
      match reactor.owner entry with
      | some j =>
        if j ≠ i then reactor.setController j { reactor.controllers j with registrationOwnerSlot := none }
        else reactor
      | none => reactor
    let reactor := { reactor with owner := Function.update reactor.owner entry (some i) }
    reactor.setController i { reactor.controllers i with registrationOwnerSlot := some entry }

def registrationEntryForController (i : ι) :
    Option Nat × EpollReactor ι :=
  match (reactor.controllers i).handle with
  | none => (none, reactor)
  | some fd =>
    match reactor.registrationEntries fd with
    | none =>
      let entry := reactor.entriesMade
      let reactor := { reactor with entriesMade := entry + 1 }.bindRegistrationOwnerSlot i entry
      (some entry, { reactor with
        registrationEntries := Function.update reactor.registrationEntries fd (some entry) })
    | some entry => (some entry, reactor.bindRegistrationOwnerSlot i entry)

def retireRegistrationEntry (i : ι) : EpollReactor ι :=
  match (reactor.controllers i).handle with
  | none => reactor
  | some fd =>
    match reactor.registrationEntries fd with
    | none => reactor
    | some entry =>
      if reactor.owner entry ≠ some i then reactor
      else
        let reactor := reactor.releaseRegistrationOwnerSlot i
        { reactor with registrationEntries := Function.update reactor.registrationEntries fd none }

variable {reactor}

/-! ## Pending changes -/

variable (reactor : EpollReactor ι)

def findPendingChangeIndex (i : ι) : Nat :=
  reactor.pendingChanges.findIdx fun change => reactor.owner change.entry = some i

def erasePendingChange (index : Nat) : EpollReactor ι :=
  { reactor with pendingChanges := reactor.pendingChanges.eraseIdx index }

def discardPendingChange (i : ι) : EpollReactor ι :=
  let index := reactor.findPendingChangeIndex i
  if index ≠ reactor.pendingChanges.length then reactor.erasePendingChange index else reactor

variable {reactor}

/-- How far `applyEvents` gets: it returns, or looks whether to flush. -/
inductive Queued (ι : Type*)
  | returned (code : Int) (reactor : EpollReactor ι)
  | queued (reactor : EpollReactor ι)

def recordRequest (reactor : EpollReactor ι) (i : ι) (events : EpollEvents) : EpollReactor ι :=
  { reactor with requested := Function.update reactor.requested i events, lastFlush := none }

/-- `applyEvents` up to the test of the threshold. -/
def queueChange (reactor : EpollReactor ι) (i : ι) (events : EpollEvents) : Queued ι :=
  let controller := reactor.controllers i
  match controller.handle with
  | none => .returned (-1) { reactor with lastFlush := none }
  | some _ =>
    let index := reactor.findPendingChangeIndex i
    let pending := reactor.pendingChanges
    if events = EPOLLET ∧ controller.registeredEvents = 0 then
      if index ≠ pending.length then
        .returned 0 ((reactor.erasePendingChange index).recordRequest i events)
      else .returned 0 (reactor.recordRequest i events)
    else if index ≠ pending.length then
      if events = controller.registeredEvents then
        .returned 0 ((reactor.erasePendingChange index).recordRequest i events)
      else if pending[index]?.map PendingChange.events = some events then
        .returned 0 (reactor.recordRequest i events)
      else
        let pending := pending.modify index ({ · with events })
        .queued ({ reactor with pendingChanges := pending }.recordRequest i events)
    else if events = controller.registeredEvents then .returned 0 (reactor.recordRequest i events)
    else
      match reactor.registrationEntryForController i with
      | (none, reactor) => .returned (-1) { reactor with lastFlush := none }
      | (some entry, reactor) =>
        let pending := reactor.pendingChanges ++ [{ entry, events }]
        .queued ({ reactor with pendingChanges := pending }.recordRequest i events)

/-! ## The kernel -/

/-- What becomes of the interest in a descriptor. With `ENOENT` the kernel says that there is none. -/
def afterCtl (interest : Option EpollEvents) (op : EpollCtl) (events : EpollEvents) :
    Option Nat → Option EpollEvents
  | none => if op = .DEL then none else some events
  | some errno => if errno = ENOENT then none else interest

/-- The calls for a descriptor of which events are to be reported, with the outcome. -/
def register (outcomes : EpollOutcomes) (fd : Nat) (registered events : EpollEvents)
    (interest : Option EpollEvents) : Option Nat × Option EpollEvents :=
  if registered = 0 then
    let result := outcomes .ADD fd
    (result, afterCtl interest .ADD events result)
  else
    let result := outcomes .MOD fd
    let interest := afterCtl interest .MOD events result
    if result = some ENOENT then
      let result := outcomes .ADD fd
      (result, afterCtl interest .ADD events result)
    else (result, interest)

/-- How a pending change ends: it is erased, or its call has failed. -/
inductive Flushed (ι : Type*)
  | erased (reactor : EpollReactor ι)
  | failed (i : ι) (errno : Nat) (reactor : EpollReactor ι)

variable (reactor : EpollReactor ι)

/-- The controller of a change, with its descriptor and the events registered for it. -/
def target (change : PendingChange) : Option (ι × Nat × EpollEvents) :=
  (reactor.owner change.entry).bind fun i =>
    (reactor.controllers i).handle.map fun fd => (i, fd, (reactor.controllers i).registeredEvents)

def setInterest (fd : Nat) (interest : Option EpollEvents) :
    EpollReactor ι :=
  { reactor with interest := Function.update reactor.interest fd interest }

def setRegistered (i : ι) (events : EpollEvents) : EpollReactor ι :=
  reactor.setController i { reactor.controllers i with registeredEvents := events }

variable {reactor}

/-- The body of the loop of `flushPendingChanges`. -/
def flushChange (outcomes : EpollOutcomes) (reactor : EpollReactor ι) (change : PendingChange) :
    Flushed ι :=
  match reactor.target change with
  | none => .erased reactor
  | some (i, fd, registered) =>
    let events := change.events
    if events = registered then .erased reactor
    else if events = EPOLLET then
      if registered = 0 then .erased reactor
      else
        let result := outcomes .DEL fd
        let reactor := reactor.setInterest fd (afterCtl (reactor.interest fd) .DEL events result)
        match result with
        | none => .erased ((reactor.setRegistered i 0).retireRegistrationEntry i)
        | some errno =>
          if errno = ENOENT then .erased ((reactor.setRegistered i 0).retireRegistrationEntry i)
          else .failed i errno reactor
    else
      let (result, interest) := register outcomes fd registered events (reactor.interest fd)
      let reactor := reactor.setInterest fd interest
      match result with
      | none => .erased (reactor.setRegistered i events)
      | some errno => .failed i errno reactor

/-- The index of the loop stays at zero: a change that has been dealt with is erased. -/
def flushFrom (outcomes : EpollOutcomes) :
    List PendingChange → EpollReactor ι → Int × EpollReactor ι
  | [], reactor => (0, { reactor with pendingChanges := [], lastFlush := some none })
  | change :: rest, reactor =>
    match reactor.flushChange outcomes change with
    | .erased reactor => flushFrom outcomes rest reactor
    | .failed i errno reactor =>
      (-1, { reactor with
        pendingChanges := change :: rest, lastError := some errno, lastFlush := some (some i) })

def flushPendingChanges (outcomes : EpollOutcomes) (reactor : EpollReactor ι) :
    Int × EpollReactor ι :=
  flushFrom outcomes reactor.pendingChanges reactor

def BATCH_THRESHOLD : Nat := 32

def applyEvents (outcomes : EpollOutcomes) (reactor : EpollReactor ι) (i : ι) (events : EpollEvents) :
    Int × EpollReactor ι :=
  match reactor.queueChange i events with
  | .returned code reactor => (code, reactor)
  | .queued reactor =>
    if reactor.pendingChanges.length ≥ BATCH_THRESHOLD then reactor.flushPendingChanges outcomes
    else (0, reactor)

/-! ## Requests -/

/-- What asks for events of a controller. An `add` that is ready at once asks for nothing. -/
inductive Request
  /-- `addAccept`, `addConnect`, `addWritev`, `addSendFile`, `addRecvFrom`, `addSendTo` and
  `addFileWatch`. -/
  | add
  /-- `addRecv` and `addReadv`. -/
  | armPersistentRead
  /-- `addSend`. -/
  | armPersistentWrite
  | addFileRead
  | addFileWrite
  | addSequence
  | remove
  | processSequence (mask : BitVec 8)
  | syncEvents

variable (reactor : EpollReactor ι)

/-- `m_persistent_events` with one more event, once there is an entry. -/
def armPersistent (i : ι) (event : EpollEvents) :
    EpollReactor ι × Option EpollEvents :=
  match reactor.registrationEntryForController i with
  | (none, reactor) => (reactor, none)
  | (some _, reactor) =>
    let controller := reactor.controllers i
    let controller := { controller with persistentEvents := controller.persistentEvents ||| event }
    (reactor.setController i controller, some controller.buildEvents)

def syncSequenceInterestMask (i : ι) : EpollReactor ι :=
  let controller := reactor.controllers i
  reactor.setController i { controller with sequenceInterestMask := controller.activeSequences }

/-- What a request does before `applyEvents`, and the events with which it calls it, if it does. -/
def prepare (i : ι) : Request → EpollReactor ι × Option EpollEvents
  | .add => (reactor, some (reactor.controllers i).buildEvents)
  | .armPersistentRead => reactor.armPersistent i EPOLLIN
  | .armPersistentWrite => reactor.armPersistent i EPOLLOUT
  | .addFileRead => (reactor, some (EPOLLIN ||| EPOLLET))
  | .addFileWrite => (reactor, some (EPOLLOUT ||| EPOLLET))
  | .addSequence =>
    let reactor := reactor.syncSequenceInterestMask i
    let controller := reactor.controllers i
    if controller.sequenceInterestMask &&& sequenceReadMask ≠ 0 then reactor.armPersistent i EPOLLIN
    else (reactor, some controller.buildEvents)
  | .remove =>
    let controller := reactor.controllers i
    if controller.handle = none then (reactor, none)
    else (reactor.setController i { controller with persistentEvents := 0 }, some EPOLLET)
  | .processSequence mask =>
    let events := sequenceInterestToEpollEvents mask
    (reactor, if events = EPOLLET then none else some events)
  | .syncEvents =>
    let reactor :=
      if (reactor.controllers i).type &&& IOEventType.SEQUENCE ≠ 0 then
        reactor.syncSequenceInterestMask i
      else reactor
    (reactor, some (reactor.controllers i).buildEvents)

/-- `close` takes the descriptor out of the kernel's interest. -/
def addClose (i : ι) : EpollReactor ι :=
  match (reactor.controllers i).handle with
  | none => reactor
  | some fd =>
    let reactor := reactor.discardPendingChange i
    let reactor := reactor.setController i { reactor.controllers i with
      type := IOEventType.INVALID, persistentEvents := 0, sequenceInterestMask := 0,
      activeSequences := 0, registeredEvents := 0 }
    let reactor := (reactor.retireRegistrationEntry i).setInterest fd none
    let reactor := reactor.setController i { reactor.controllers i with handle := none }
    { reactor with requested := Function.update reactor.requested i EPOLLET, lastFlush := none }

variable {reactor}

/-! ## Runs -/

inductive Op (ι : Type*)
  | request (i : ι) (request : Request)
  | flushPendingChanges
  | addClose (i : ι)
  /-- A controller gets a new descriptor. -/
  | open (i : ι) (fd : Nat)
  /-- Awaitables come to a controller or leave it. -/
  | await (i : ι) (type : BitVec 32) (activeSequences : BitVec 8)

variable (reactor)

def Enabled : Op ι → Prop
  | .open i fd => (reactor.controllers i).handle = none ∧ ∀ j, (reactor.controllers j).handle ≠ some fd
  | _ => True

def step (outcomes : EpollOutcomes) (reactor : EpollReactor ι) : Op ι → EpollReactor ι
  | .request i request =>
    match reactor.prepare i request with
    | (reactor, none) => { reactor with lastFlush := none }
    | (reactor, some events) => (reactor.applyEvents outcomes i events).2
  | .flushPendingChanges => (reactor.flushPendingChanges outcomes).2
  | .addClose i => reactor.addClose i
  | .open i fd =>
    { reactor.setController i { handle := some fd } with lastFlush := none }
  | .await i type activeSequences =>
    { reactor.setController i { reactor.controllers i with type, activeSequences } with
      lastFlush := none }

/-- Where an operation flushes, the state in which it begins to. -/
def beforeFlush : Op ι → Option (EpollReactor ι)
  | .request i request =>
    match reactor.prepare i request with
    | (_, none) => none
    | (reactor, some events) =>
      match reactor.queueChange i events with
      | .returned _ _ => none
      | .queued reactor =>
        if reactor.pendingChanges.length ≥ BATCH_THRESHOLD then some reactor else none
  | .flushPendingChanges => some reactor
  | _ => none

end EpollReactor

end Galay.Kernel
