import Galay.Redis.Protocol

/-!
# The cluster client (`galay-redis/async/topology_client.cc`)

A task runs until it waits for the network; `Await` keeps what it knows there, and `resume` runs it
on from the answer. A node is named by its position, as its address in memory does. Every node has a
connection object, so the checks for a missing one are left out.
-/

namespace Galay.Redis

open Galay.Lib

/-! ## Values of a reply (`galay-redis/base/redis_value.cc`) -/

namespace RedisReply

variable {δ : Type} (value : RedisReply δ)

def asString : Bytes :=
  match value with
  | .string _ text => text
  | _ => []

def isError : Bool :=
  match value with
  | .string .Error _ => true
  | _ => false

def isArray : Bool :=
  match value with
  | .array .Array _ => true
  | _ => false

def toArray : List (RedisReply δ) :=
  match value with
  | .array .Array elements => elements
  | _ => []

def toInteger? : Option Int :=
  match value with
  | .integer value => some value
  | _ => none

end RedisReply

def valueToString {δ : Type} : RedisReply δ → Bytes
  | .string .BulkString text => text
  | .string .SimpleString text => text
  | .integer value => ascii (toString value)
  | _ => []

inductive RedisErrorType
  | REDIS_ERROR_TYPE_SUCCESS
  | REDIS_ERROR_TYPE_URL_INVALID_ERROR
  | REDIS_ERROR_TYPE_HOST_INVALID_ERROR
  | REDIS_ERROR_TYPE_PORT_INVALID_ERROR
  | REDIS_ERROR_TYPE_DB_INDEX_INVALID_ERROR
  | REDIS_ERROR_TYPE_ADDRESS_TYPE_INVALID_ERROR
  | REDIS_ERROR_TYPE_VERSION_INVALID_ERROR
  | REDIS_ERROR_TYPE_CONNECTION_ERROR
  | REDIS_ERROR_TYPE_FREE_REDISOBJ_ERROR
  | REDIS_ERROR_TYPE_COMMAND_ERROR
  | REDIS_ERROR_TYPE_TIMEOUT_ERROR
  | REDIS_ERROR_TYPE_AUTH_ERROR
  | REDIS_ERROR_TYPE_INVALID_ERROR
  | REDIS_ERROR_TYPE_UNKNOWN_ERROR
  | REDIS_ERROR_TYPE_PARSE_ERROR
  | REDIS_ERROR_TYPE_SEND_ERROR
  | REDIS_ERROR_TYPE_RECV_ERROR
  | REDIS_ERROR_TYPE_BUFFER_OVERFLOW_ERROR
  | REDIS_ERROR_TYPE_NETWORK_ERROR
  | REDIS_ERROR_TYPE_CONNECTION_CLOSED
  | REDIS_ERROR_TYPE_INTERNAL_ERROR
  deriving DecidableEq, Repr

structure RedisError where
  type : RedisErrorType
  message : String
  deriving DecidableEq, Repr

abbrev RedisCommandResult (δ : Type) := Except RedisError (List (RedisReply δ))

/-- What an exchange with a node gives. -/
abbrev ExchangeResult (δ : Type) := Except RedisError (Option (List (RedisReply δ)))

/-! ## Slots -/

abbrev Slot := Fin 16384

def crc16Bit (crc : UInt16) : UInt16 :=
  if crc &&& 0x8000 ≠ 0 then (crc <<< 1) ^^^ 0x1021 else crc <<< 1

def crc16 (data : Bytes) : UInt16 :=
  data.foldl (fun crc byte => crc16Bit^[8] (crc ^^^ (byte.toUInt16 <<< (8 : UInt16)))) 0

def extractHashTag (key : Bytes) : Bytes :=
  match key.dropWhile (· ≠ 0x7B) with
  | [] => key
  | _ :: behind =>
    let tag := behind.takeWhile (· ≠ 0x7D)
    if tag.length = behind.length ∨ tag = [] then key else tag

def keySlot (key : Bytes) : Slot := Fin.ofNat 16384 (crc16 (extractHashTag key)).toNat

/-! ## Redirects -/

inductive RedirectType
  | Moved
  | Ask
  deriving DecidableEq, Repr

structure RedirectInfo where
  host : Bytes
  type : RedirectType
  port : Int
  slot : Slot
  deriving DecidableEq, Repr

/-- `std::isspace` in the C locale. -/
def isSpace (c : UInt8) : Bool := c = 0x20 ∨ (0x09 ≤ c ∧ c ≤ 0x0D)

/-- The parts of a message, one at a time; a part takes at least a byte. -/
def splitParts : Nat → Bytes → List Bytes
  | 0, _ => []
  | fuel + 1, msg =>
    match msg.dropWhile isSpace with
    | [] => []
    | rest => rest.takeWhile (!isSpace ·) :: splitParts fuel (rest.dropWhile (!isSpace ·))

def parseInt32 (input : Bytes) : Option Int := signedFromChars 32 input

def parseHostPort (hostPort : Bytes) : Option (Bytes × Int) :=
  if hostPort = [] then none
  else
    let endpoint := hostPort.takeWhile (· ≠ 0x40)
    let port := (endpoint.reverse.takeWhile (· ≠ 0x3A)).reverse
    if port.length = endpoint.length then none
    else
      let host := endpoint.take (endpoint.length - port.length - 1)
      if host = [] ∨ port = [] then none
      else
        match parseInt32 port with
        | none => none
        | some port => some (host, port)

def parseRedirect {δ : Type} (value : RedisReply δ) : Option RedirectInfo :=
  if !value.isError then none
  else
    let msg := value.asString
    if msg = [] then none
    else
      match splitParts msg.length msg with
      | kind :: slot :: hostPort :: _ =>
        let type := if kind = ascii "MOVED" then some RedirectType.Moved
          else if kind = ascii "ASK" then some RedirectType.Ask else none
        match type with
        | none => none
        | some type =>
          match parseInt32 slot with
          | none => none
          | some slot =>
            if h : slot < 0 ∨ 16383 < slot then none
            else
              match parseHostPort hostPort with
              | none => none
              | some (host, port) =>
                some { host, type, port, slot := ⟨slot.toNat, by omega⟩ }
      | _ => none

/-! ## Nodes -/

structure NodeAddress where
  host : Bytes := ascii "127.0.0.1"
  username : Bytes := []
  password : Bytes := []
  port : Int := 6379
  dbIndex : Int := 0
  version : Int := 2
  slotStart : UInt16 := 0
  slotEnd : UInt16 := 16383
  deriving DecidableEq, Repr

def NodeAddress.endpoint (address : NodeAddress) : Bytes × Int := (address.host, address.port)

structure ClusterNode where
  address : NodeAddress
  connected : Bool := false
  deriving DecidableEq, Repr

structure RedisClusterClient where
  nodes : List ClusterNode := []
  slotOwner : Slot → Int := fun _ => -1
  autoRefreshInterval : Nat := 5000
  lastRefreshTime : Nat := 0
  slotCacheReady : Bool := false

namespace RedisClusterClient

variable {δ : Type} (client : RedisClusterClient)

def isConnected (index : Nat) : Bool := client.nodes[index]?.any (·.connected)

def setConnected (index : Nat) : RedisClusterClient :=
  { client with nodes := client.nodes.modify index fun node => { node with connected := true } }

/-- The loop over a range of slots, which stops at the last slot. A range that starts behind it is
written outside of the table. -/
def assignRange (start stop : UInt16) (owner : Int) : Option (Slot → Int) :=
  if start ≤ stop ∧ 16383 < start then none
  else some fun slot =>
    if start.toNat ≤ slot.val ∧ slot.val ≤ stop.toNat then owner else client.slotOwner slot

def addNode (address : NodeAddress) : Option RedisClusterClient :=
  match client.assignRange address.slotStart address.slotEnd client.nodes.length with
  | none => none
  | some slotOwner =>
    some { client with nodes := client.nodes ++ [{ address }], slotOwner, slotCacheReady := true }

def setSlotRange (nodeIndex : Nat) (slotStart slotEnd : UInt16) : Option RedisClusterClient :=
  if client.nodes.length ≤ nodeIndex then some client
  else
    match client.assignRange slotStart slotEnd nodeIndex with
    | none => none
    | some slotOwner =>
      some { client with
        nodes := client.nodes.modify nodeIndex fun node =>
          { node with address := { node.address with slotStart, slotEnd } }
        slotOwner, slotCacheReady := true }

def setAutoRefreshInterval (interval : Nat) : RedisClusterClient :=
  if 0 < interval then { client with autoRefreshInterval := interval } else client

def chooseNodeHandleBySlot (slot : Slot) : Option Nat :=
  if client.nodes = [] then none
  else
    let owner := client.slotOwner slot
    if 0 ≤ owner ∧ owner.toNat < client.nodes.length then some owner.toNat
    else
      match client.nodes.findIdx? fun node =>
          node.address.slotStart.toNat ≤ slot.val ∧ slot.val ≤ node.address.slotEnd.toNat with
      | some index => some index
      | none => some 0

def chooseNodeHandleByKey (key : Bytes) : Option Nat := client.chooseNodeHandleBySlot (keySlot key)

/-- The client with the node in it, and where it is. -/
def findOrCreateNode (host : Bytes) (port : Int) : RedisClusterClient × Nat :=
  match client.nodes.findIdx? fun node => node.address.host = host ∧ node.address.port = port with
  | some index => (client, index)
  | none =>
    ({ client with nodes := client.nodes ++ [{ address := { host, port } }] }, client.nodes.length)

/-- The node that serves a batch; without one, a client of its own does. -/
def batchNode (routingKey : Bytes) : Option Nat :=
  if routingKey = [] then client.chooseNodeHandleBySlot 0
  else client.chooseNodeHandleByKey routingKey

/-- What a row of `CLUSTER SLOTS` says: its slots and the address of their node. -/
def parseSlotsRow (row : RedisReply δ) : Option (Nat × Nat × Bytes × Int) :=
  match row.toArray with
  | start :: stop :: master :: _ =>
    match start.toInteger?, stop.toInteger? with
    | some start, some stop =>
      if !master.isArray ∨ start < 0 ∨ stop < 0 ∨ stop < start ∨ 16383 < stop then none
      else
        match master.toArray with
        | host :: port :: _ =>
          match parseInt32 (valueToString port) with
          | none => none
          | some port =>
            if valueToString host = [] then none
            else some (start.toNat, stop.toNat, valueToString host, port)
        | _ => none
    | _, _ => none
  | _ => none

/-- One row, with the table that is being filled. -/
def applySlotsRow (state : RedisClusterClient × (Slot → Int)) (row : RedisReply δ) :
    RedisClusterClient × (Slot → Int) :=
  match parseSlotsRow row with
  | none => state
  | some (start, stop, host, port) =>
    let (client, index) := state.1.findOrCreateNode host port
    let nodes := client.nodes.modify index fun node =>
      { node with
        address := { node.address with
          slotStart := UInt16.ofNat (min node.address.slotStart.toNat start)
          slotEnd := UInt16.ofNat (max node.address.slotEnd.toNat stop) } }
    ({ client with nodes },
      fun slot => if start ≤ slot.val ∧ slot.val ≤ stop then index else state.2 slot)

def applyClusterSlots (values : List (RedisReply δ)) (now : Nat) :
    Except String RedisClusterClient :=
  match values with
  | [] => .error "CLUSTER SLOTS response is not array"
  | first :: _ =>
    if !first.isArray then .error "CLUSTER SLOTS response is not array"
    else
      let (client, newOwner) := first.toArray.foldl applySlotsRow (client, fun _ => -1)
      .ok { client with slotOwner := newOwner, slotCacheReady := true, lastRefreshTime := now }

def shouldAutoRefresh (now : Nat) : Bool :=
  !client.slotCacheReady || decide (client.autoRefreshInterval ≤ now - client.lastRefreshTime)

end RedisClusterClient

/-! ## Tasks -/

/-- The arguments of `runAutoTask`. -/
structure ClusterTask where
  routingKey : Bytes
  cmd : Bytes
  args : List Bytes
  forceKeyRouting : Bool
  allowAutoRefresh : Bool
  maxAttempts : Nat

/-- The key that a request is routed by. -/
def ClusterTask.key? (task : ClusterTask) : Option Bytes :=
  if task.forceKeyRouting ∧ task.routingKey ≠ [] then some task.routingKey else task.args.head?

def ClusterTask.ofCommand (cmd : Bytes) (args : List Bytes) (routingKey : Bytes)
    (autoRetry : Bool) : ClusterTask :=
  let routingKey := if routingKey = [] then args.head?.getD [] else routingKey
  { routingKey, cmd, args
    forceKeyRouting := routingKey ≠ []
    allowAutoRefresh := autoRetry
    maxAttempts := if autoRetry then 5 else 1 }

/-- Where a refresh of the slots goes on: at its caller, before the first attempt of a task or
before the next one. -/
inductive Refresher
  | caller
  | task (task : ClusterTask) (left : Nat)

/-- What a task waits for, with the attempts that it has left after this one. -/
inductive Await
  | refreshConnect (refresher : Refresher) (seed : Nat)
  | refreshCommand (refresher : Refresher)
  | connect (task : ClusterTask) (left : Nat) (target : Nat)
  | command (task : ClusterTask) (left : Nat) (target : Nat)
  | connectRedirect (task : ClusterTask) (left : Nat) (redirect : RedirectInfo) (node : Nat)
  | asking (task : ClusterTask) (left : Nat) (redirect : RedirectInfo) (node : Nat)

inductive Control (δ : Type)
  | waiting (await : Await)
  | returned (result : RedisCommandResult δ)

namespace RedisClusterClient

variable {δ : Type} (client : RedisClusterClient)

variable (task : ClusterTask)

def chooseTarget : Option Nat :=
  match task.key? with
  | some key => client.chooseNodeHandleByKey key
  | none => client.chooseNodeHandleBySlot 0

/-- The head of the loop of `runAutoTask`. -/
def attempt : Nat → Control δ
  | 0 =>
    .returned (.error ⟨.REDIS_ERROR_TYPE_COMMAND_ERROR, "Exceeded redirect retry limit"⟩)
  | left + 1 =>
    match client.chooseTarget task with
    | none => .returned (.error ⟨.REDIS_ERROR_TYPE_CONNECTION_ERROR, "No target cluster node"⟩)
    | some target =>
      if client.isConnected target then .waiting (.command task left target)
      else .waiting (.connect task left target)

variable (refresher : Refresher)

def finishRefresh (result : RedisCommandResult δ) : Control δ :=
  match refresher with
  | .caller => .returned result
  | .task task left => client.attempt task left

/-- `refreshSlotsTask` up to its first answer; the first node is the seed. -/
def refreshSlots : Control δ :=
  if client.nodes = [] then
    client.finishRefresh refresher
      (.error ⟨.REDIS_ERROR_TYPE_CONNECTION_ERROR, "No cluster node configured"⟩)
  else if client.isConnected 0 then .waiting (.refreshCommand refresher)
  else .waiting (.refreshConnect refresher 0)

def runAutoTask (now : Nat) : Control δ :=
  if client.nodes = [] then
    .returned (.error ⟨.REDIS_ERROR_TYPE_CONNECTION_ERROR, "No cluster node configured"⟩)
  else if task.allowAutoRefresh && client.shouldAutoRefresh now then
    client.refreshSlots (.task task (max 1 task.maxAttempts))
  else client.attempt task (max 1 task.maxAttempts)

def setOwner (slot : Slot) (node : Nat) : RedisClusterClient :=
  { client with slotOwner := Function.update client.slotOwner slot node }

/-- What a redirect does once its node is connected. -/
def followRedirect (left : Nat) (redirect : RedirectInfo) (node : Nat) :
    RedisClusterClient × Control δ :=
  match redirect.type with
  | .Moved =>
    let client := client.setOwner redirect.slot node
    if task.allowAutoRefresh then (client, client.refreshSlots (.task task left))
    else (client, client.attempt task left)
  | .Ask => (client, .waiting (.asking task left redirect node))

/-- What a task does with the answer to a connect. -/
def resumeConnect (await : Await) (result : Except RedisError Unit) :
    Option (RedisClusterClient × Control δ) :=
  match await, result with
  | .refreshConnect refresher _, .error error =>
    some (client, client.finishRefresh refresher (.error error))
  | .refreshConnect refresher seed, .ok () =>
    some (client.setConnected seed, .waiting (.refreshCommand refresher))
  | .connect .., .error error => some (client, .returned (.error error))
  | .connect task left target, .ok () =>
    some (client.setConnected target, .waiting (.command task left target))
  | .connectRedirect .., .error error => some (client, .returned (.error error))
  | .connectRedirect task left redirect node, .ok () =>
    some ((client.setConnected node).followRedirect task left redirect node)
  | _, _ => none

/-- The answer to `CLUSTER SLOTS`. -/
def resumeRefresh (result : ExchangeResult δ) (now : Nat) :
    RedisClusterClient × Control δ :=
  match result with
  | .error error => (client, client.finishRefresh refresher (.error error))
  | .ok none =>
    (client, client.finishRefresh refresher
      (.error ⟨.REDIS_ERROR_TYPE_PARSE_ERROR, "CLUSTER SLOTS returned empty payload"⟩))
  | .ok (some values) =>
    match client.applyClusterSlots values now with
    | .error parseError =>
      (client, client.finishRefresh refresher (.error ⟨.REDIS_ERROR_TYPE_PARSE_ERROR, parseError⟩))
    | .ok client => (client, client.finishRefresh refresher (.ok values))

/-- The answer to the command itself. -/
def resumeCommand (left : Nat) (result : ExchangeResult δ) :
    RedisClusterClient × Control δ :=
  match result with
  | .error error => (client, .returned (.error error))
  | .ok none | .ok (some []) =>
    (client, .returned
      (.error ⟨.REDIS_ERROR_TYPE_PARSE_ERROR, "Cluster command returned empty payload"⟩))
  | .ok (some (first :: values)) =>
    match parseRedirect first with
    | none => (client, .returned (.ok (first :: values)))
    | some redirect =>
      let (client, node) := client.findOrCreateNode redirect.host redirect.port
      if client.isConnected node then client.followRedirect task left redirect node
      else (client, .waiting (.connectRedirect task left redirect node))

/-- The answer to `ASKING` and the command behind it. -/
def resumeAsking (left node : Nat) (result : ExchangeResult δ) :
    RedisClusterClient × Control δ :=
  match result with
  | .error error => (client, .returned (.error error))
  | .ok (some (_ :: reply :: _)) =>
    match parseRedirect reply with
    | none => (client, .returned (.ok [reply]))
    | some chained =>
      let client := match chained.type with
        | .Moved => client.setOwner chained.slot node
        | .Ask => client
      (client, client.attempt task left)
  | .ok _ =>
    (client, .returned
      (.error ⟨.REDIS_ERROR_TYPE_PARSE_ERROR, "ASK redirect response invalid"⟩))

def resumeExchange (await : Await) (result : ExchangeResult δ) (now : Nat) :
    Option (RedisClusterClient × Control δ) :=
  match await with
  | .refreshCommand refresher => some (client.resumeRefresh refresher result now)
  | .command task left _ => some (client.resumeCommand task left result)
  | .asking task left _ node => some (client.resumeAsking task left node result)
  | _ => none

end RedisClusterClient

/-! ## The client and its task -/

structure ClusterSystem where
  client : RedisClusterClient
  await : Option Await := none

/-- Calls of the client, and answers of the network. -/
inductive ClusterInput (δ : Type)
  | addNode (address : NodeAddress)
  | setSlotRange (nodeIndex : Nat) (slotStart slotEnd : UInt16)
  | setAutoRefreshInterval (interval : Nat)
  | refreshSlots
  | execute (cmd : Bytes) (args : List Bytes) (routingKey : Bytes) (autoRetry : Bool) (now : Nat)
  | connected (result : Except RedisError Unit)
  | exchanged (result : ExchangeResult δ) (now : Nat)

namespace ClusterSystem

variable {δ : Type}

/-- A task that returned is gone. -/
def ofControl (client : RedisClusterClient) : Control δ → ClusterSystem
  | .waiting await => { client, await := some await }
  | .returned _ => { client }

/-- Calls come between tasks, answers to the task that waits for them. -/
def step (system : ClusterSystem) (input : ClusterInput δ) : Option ClusterSystem :=
  let client := system.client
  match system.await, input with
  | none, .addNode address => (client.addNode address).map fun client => { client }
  | none, .setSlotRange nodeIndex slotStart slotEnd =>
    (client.setSlotRange nodeIndex slotStart slotEnd).map fun client => { client }
  | none, .setAutoRefreshInterval interval => some { client := client.setAutoRefreshInterval interval }
  | none, .refreshSlots => some (ofControl client (client.refreshSlots .caller : Control δ))
  | none, .execute cmd args routingKey autoRetry now =>
    some (ofControl client
      (client.runAutoTask (.ofCommand cmd args routingKey autoRetry) now : Control δ))
  | some await, .connected result =>
    (client.resumeConnect await result).map fun (client, control) =>
      ofControl client (control : Control δ)
  | some await, .exchanged result now =>
    (client.resumeExchange await result now).map fun (client, control) => ofControl client control
  | _, _ => none

end ClusterSystem

end Galay.Redis
