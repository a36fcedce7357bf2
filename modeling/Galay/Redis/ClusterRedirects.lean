import Galay.Lib.Run
import Galay.Redis.ClusterClient

/-!
# Where the requests of a slot go

A `MOVED` reply announces the address of a slot. What was announced is kept beside the client, and
the owner of the slot is compared with it: a redirect of a redirect writes the node that answered
it, not the one that it names.
-/

namespace Galay.Redis

open Function (update update_of_ne update_self)
open Galay.Lib

variable {δ : Type}

abbrev Endpoint := Bytes × Int

def RedirectInfo.endpoint (redirect : RedirectInfo) : Endpoint := (redirect.host, redirect.port)

/-! ## Owners -/

namespace RedisClusterClient

variable {client client' : RedisClusterClient} {slot slot' : Slot} {endpoint : Endpoint}
variable {i index : Nat}

def endpointAt (client : RedisClusterClient) (i : Nat) : Option Endpoint :=
  client.nodes[i]?.map (·.address.endpoint)

/-- The table names a node with this address. -/
def Owned (client : RedisClusterClient) (slot : Slot) (endpoint : Endpoint) : Prop :=
  ∃ i : Nat, client.slotOwner slot = i ∧ client.endpointAt i = some endpoint

theorem Owned.choose (h : client.Owned slot endpoint) :
    ∃ i, client.chooseNodeHandleBySlot slot = some i ∧ client.endpointAt i = some endpoint := by
  obtain ⟨i, howner, hat⟩ := h
  have hlt : i < client.nodes.length := by
    obtain ⟨node, hnode, -⟩ := Option.map_eq_some_iff.1 hat
    exact (List.getElem?_eq_some_iff.1 hnode).1
  refine ⟨i, ?_, hat⟩
  have hne : client.nodes ≠ [] := List.ne_nil_of_length_pos (Nat.zero_lt_of_lt hlt)
  rw [chooseNodeHandleBySlot, if_neg hne, howner]
  exact if_pos ⟨Int.natCast_nonneg i, hlt⟩

/-- Nodes stay where they are, with their addresses. -/
def Extends (client client' : RedisClusterClient) : Prop :=
  ∀ i endpoint, client.endpointAt i = some endpoint → client'.endpointAt i = some endpoint

theorem Owned.extend (h : client.Owned slot endpoint) (hnodes : client.Extends client')
    (howner : client'.slotOwner slot = client.slotOwner slot) : client'.Owned slot endpoint := by
  obtain ⟨i, hi, hat⟩ := h
  exact ⟨i, howner.trans hi, hnodes i endpoint hat⟩

theorem endpointAt_modify (hf : ∀ node, (f node).address.endpoint = node.address.endpoint)
    (hnodes : client'.nodes = client.nodes.modify index f) (i : Nat) :
    client'.endpointAt i = client.endpointAt i := by
  rw [endpointAt, endpointAt, hnodes, List.getElem?_modify]
  cases client.nodes[i]? with
  | none => rfl
  | some node =>
  refine congrArg some ?_
  split
  · exact hf node
  rfl

theorem extends_append {nodes : List ClusterNode} (hnodes : client'.nodes = client.nodes ++ nodes) :
    client.Extends client' := by
  intro i endpoint h
  obtain ⟨node, hnode, haddress⟩ := Option.map_eq_some_iff.1 h
  have hlt := (List.getElem?_eq_some_iff.1 hnode).1
  rw [endpointAt, hnodes, List.getElem?_append_left hlt, hnode, Option.map_some, haddress]

@[simp]
theorem endpointAt_setConnected :
    (client.setConnected index).endpointAt i = client.endpointAt i := by
  have hnodes : (client.setConnected index).nodes =
      client.nodes.modify index fun node => { node with connected := true } := rfl
  exact endpointAt_modify (by intro node; rfl) hnodes i

@[simp]
theorem owned_setConnected :
    (client.setConnected index).Owned slot endpoint ↔ client.Owned slot endpoint := by
  simp only [Owned, endpointAt_setConnected]
  exact Iff.rfl

theorem findOrCreateNode_extends (host : Bytes) (port : Int) :
    client.Extends (client.findOrCreateNode host port).1 := by
  unfold findOrCreateNode
  split
  · exact fun _ _ h => h
  exact extends_append rfl

theorem findOrCreateNode_slotOwner (host : Bytes) (port : Int) :
    (client.findOrCreateNode host port).1.slotOwner = client.slotOwner := by
  unfold findOrCreateNode
  split <;> rfl

theorem findOrCreateNode_endpointAt (host : Bytes) (port : Int) :
    (client.findOrCreateNode host port).1.endpointAt (client.findOrCreateNode host port).2 =
      some (host, port) := by
  unfold findOrCreateNode
  split
  · next index hfind =>
    obtain ⟨hlt, hnode, -⟩ := List.findIdx?_eq_some_iff_getElem.1 hfind
    obtain ⟨hhost, hport⟩ := of_decide_eq_true hnode
    simp only [endpointAt, List.getElem?_eq_getElem hlt, Option.map_some, NodeAddress.endpoint,
      hhost, hport]
  simp [endpointAt, NodeAddress.endpoint]

theorem owned_setOwner (hat : client.endpointAt index = some endpoint) :
    (client.setOwner slot index).Owned slot endpoint :=
  ⟨index, update_self .., hat⟩

theorem owned_setOwner_of_ne (hne : slot' ≠ slot) (h : client.Owned slot' endpoint) :
    (client.setOwner slot index).Owned slot' endpoint :=
  h.extend (fun _ _ h => h) (update_of_ne hne ..)

end RedisClusterClient

/-! ## What a task waits for -/

/-- A request is on its way to the owner of its slot, a redirected one to the node that was
named. -/
def AwaitOk (client : RedisClusterClient) : Await → Prop
  | .connect task _ target | .command task _ target =>
    ∀ key, task.key? = some key → ∀ endpoint, client.Owned (keySlot key) endpoint →
      client.endpointAt target = some endpoint
  | .connectRedirect _ _ redirect node | .asking _ _ redirect node =>
    client.endpointAt node = some redirect.endpoint
  | _ => True

/-- Where a task goes on that does not wait for the node of a redirect. -/
def ControlOk (client : RedisClusterClient) : Control δ → Prop
  | .waiting (.connectRedirect ..) => False
  | .waiting await => AwaitOk client await
  | .returned _ => True

namespace RedisClusterClient

variable {client : RedisClusterClient}

variable (task : ClusterTask)

theorem controlOk_attempt (left : Nat) :
    ControlOk client (client.attempt task left : Control δ) := by
  cases left with
  | zero => trivial
  | succ left =>
  rw [attempt]
  split
  · trivial
  next target htarget =>
  have hok : ∀ key, task.key? = some key → ∀ endpoint, client.Owned (keySlot key) endpoint →
      client.endpointAt target = some endpoint := by
    intro key hkey endpoint howned
    obtain ⟨i, hchoose, hat⟩ := howned.choose
    simp only [chooseTarget, hkey, chooseNodeHandleByKey, hchoose] at htarget
    cases htarget
    exact hat
  split <;> exact hok

theorem controlOk_finishRefresh (refresher : Refresher) (result : RedisCommandResult δ) :
    ControlOk client (client.finishRefresh refresher result) := by
  cases refresher with
  | caller => trivial
  | task task left => exact controlOk_attempt task left

theorem controlOk_refreshSlots (refresher : Refresher) :
    ControlOk client (client.refreshSlots refresher : Control δ) := by
  unfold refreshSlots
  split
  · exact controlOk_finishRefresh ..
  split <;> trivial

theorem controlOk_runAutoTask (now : Nat) :
    ControlOk client (client.runAutoTask task now : Control δ) := by
  unfold runAutoTask
  split
  · trivial
  split
  · exact controlOk_refreshSlots ..
  exact controlOk_attempt ..

theorem followRedirect_client (left : Nat) (redirect : RedirectInfo) (node : Nat) :
    (client.followRedirect task left redirect node : RedisClusterClient × Control δ).1 =
      match redirect.type with
      | .Moved => client.setOwner redirect.slot node
      | .Ask => client := by
  rw [followRedirect]
  cases redirect.type with
  | Moved => cases task.allowAutoRefresh <;> rfl
  | Ask => rfl

theorem controlOk_followRedirect (left : Nat)
    (hat : client.endpointAt node = some redirect.endpoint) :
    ControlOk (client.followRedirect task left redirect node : RedisClusterClient × Control δ).1
      (client.followRedirect task left redirect node : RedisClusterClient × Control δ).2 := by
  unfold followRedirect
  split
  · simp only
    split
    · exact controlOk_refreshSlots ..
    exact controlOk_attempt ..
  exact hat

end RedisClusterClient

/-! ## What was announced -/

namespace ClusterSystem

variable (system : ClusterSystem) (input : ClusterInput δ)

/-- The reply that may be a redirect: the answer to a command, or behind the one to `ASKING`. -/
def reply? : Option (RedisReply δ) :=
  match system.await, input with
  | some (.command ..), .exchanged (.ok (some (first :: _))) _ => some first
  | some (.asking ..), .exchanged (.ok (some (_ :: reply :: _))) _ => some reply
  | _, _ => none

def redirect? : Option RedirectInfo := (system.reply? input).bind parseRedirect

/-- The slots that a call or a refresh gives to other nodes. -/
def reassigns (slot : Slot) : Bool :=
  match system.await, input with
  | none, .addNode address => address.slotStart.toNat ≤ slot.val ∧ slot.val ≤ address.slotEnd.toNat
  | none, .setSlotRange nodeIndex slotStart slotEnd =>
    nodeIndex < system.client.nodes.length ∧
      slotStart.toNat ≤ slot.val ∧ slot.val ≤ slotEnd.toNat
  | some (.refreshCommand _), .exchanged (.ok (some (first :: _))) _ => first.isArray
  | _, _ => false

/-- The addresses that `MOVED` replies gave for slots, until they are assigned anew. -/
def announce (announced : Slot → Option Endpoint) : Slot → Option Endpoint :=
  match system.redirect? input with
  | some redirect =>
    match redirect.type with
    | .Moved => Function.update announced redirect.slot (some redirect.endpoint)
    | .Ask => announced
  | none => fun slot => if system.reassigns input slot then none else announced slot

/-- A `MOVED` behind an `ASK` names the node that answers, and the node that a `MOVED` names can be
connected. -/
def Follows : Bool :=
  match system.await, input with
  | some (.asking _ _ asked _), input =>
    (system.redirect? input).all fun redirect =>
      redirect.type ≠ .Moved ∨ redirect.endpoint = asked.endpoint
  | some (.connectRedirect _ _ redirect _), .connected result =>
    redirect.type ≠ .Moved ∨ result.isOk
  | _, _ => true

/-- An `ASK`, and what is done for it up to the answer of the node that it names. -/
def HandlesAsk : Prop :=
  (∃ redirect, system.redirect? input = some redirect ∧ redirect.type = .Ask) ∨
    match system.await with
    | some (.connectRedirect _ _ redirect _) => redirect.type = .Ask
    | some (.asking ..) => ∀ redirect, system.redirect? input = some redirect → redirect.type = .Ask
    | _ => False

/-- The requests of a slot whose address was announced go to it; the ones that follow an `ASK` go
to the node that it names. -/
structure Routed (announced : Slot → Option Endpoint) : Prop where
  command : ∀ task left target key endpoint, system.await = some (.command task left target) →
    task.key? = some key → announced (keySlot key) = some endpoint →
    system.client.endpointAt target = some endpoint
  batch : system.await = none → ∀ key endpoint, key ≠ [] →
    announced (keySlot key) = some endpoint →
    ∃ node, system.client.batchNode key = some node ∧
      system.client.endpointAt node = some endpoint
  asking : ∀ task left redirect node, system.await = some (.asking task left redirect node) →
    system.client.endpointAt node = some redirect.endpoint

/-- The `MOVED` reply whose node is being connected. -/
def moving : Option RedirectInfo :=
  match system.await with
  | some (.connectRedirect _ _ redirect _) => if redirect.type = .Moved then some redirect else none
  | _ => none

end ClusterSystem

structure Tracked where
  system : ClusterSystem
  announced : Slot → Option Endpoint := fun _ => none

namespace Tracked

def next (tracked : Tracked) (input : ClusterInput δ) : Option Tracked :=
  (tracked.system.step input).map fun system =>
    { system, announced := tracked.system.announce input tracked.announced }

def follow (tracked : Tracked) (input : ClusterInput δ) : Option Tracked :=
  if tracked.system.Follows input then tracked.next input else none

def Step (δ : Type) (tracked tracked' : Tracked) : Prop :=
  ∃ input : ClusterInput δ, tracked.next input = some tracked'

/-- A step that meets the condition. -/
def FollowingStep (δ : Type) (tracked tracked' : Tracked) : Prop :=
  ∃ input : ClusterInput δ, tracked.follow input = some tracked'

/-- A slot has the owner that was announced, unless its node is being connected. -/
structure Inv (tracked : Tracked) : Prop where
  owned : ∀ slot endpoint, tracked.announced slot = some endpoint →
    (∀ redirect, tracked.system.moving = some redirect → redirect.slot ≠ slot) →
    tracked.system.client.Owned slot endpoint
  moving : ∀ redirect, tracked.system.moving = some redirect →
    tracked.announced redirect.slot = some redirect.endpoint
  await : ∀ await, tracked.system.await = some await → AwaitOk tracked.system.client await

variable {tracked : Tracked} {announced : Slot → Option Endpoint}

theorem Inv.routed (H : tracked.Inv) : tracked.system.Routed tracked.announced where
  command task left target key endpoint hawait hkey hannounced := by
    refine H.await _ hawait key hkey endpoint (H.owned _ _ hannounced fun redirect hmoving => ?_)
    rw [ClusterSystem.moving, hawait] at hmoving
    cases hmoving
  batch hawait key endpoint hkey hannounced := by
    have howned : tracked.system.client.Owned (keySlot key) endpoint := by
      refine H.owned _ _ hannounced fun redirect hmoving => ?_
      rw [ClusterSystem.moving, hawait] at hmoving
      cases hmoving
    obtain ⟨node, hchoose, hat⟩ := howned.choose
    exact ⟨node, (if_neg hkey).trans hchoose, hat⟩
  asking task left redirect node hawait := H.await _ hawait

theorem inv_idle
    (howned : ∀ slot endpoint, announced slot = some endpoint → client.Owned slot endpoint) :
    Inv ⟨{ client }, announced⟩ where
  owned slot endpoint h _ := howned slot endpoint h
  moving := nofun
  await := nofun

theorem inv_of_control {control : Control δ}
    (howned : ∀ slot endpoint, announced slot = some endpoint → client.Owned slot endpoint)
    (hok : ControlOk client control) : Inv ⟨ClusterSystem.ofControl client control, announced⟩ := by
  cases control with
  | returned result => exact inv_idle howned
  | waiting await =>
  refine ⟨fun slot endpoint h _ => howned slot endpoint h, ?_, ?_⟩
  · intro redirect hmoving
    cases await with
    | connectRedirect => exact hok.elim
    | _ => cases hmoving
  intro await' hawait
  cases hawait
  cases await with
  | connectRedirect => exact hok.elim
  | _ => exact hok

theorem Inv.all_owned (H : tracked.Inv) (hmoving : tracked.system.moving = none) :
    ∀ slot endpoint, tracked.announced slot = some endpoint →
      tracked.system.client.Owned slot endpoint := by
  intro slot endpoint h
  refine H.owned slot endpoint h fun redirect hredirect => ?_
  rw [hmoving] at hredirect
  cases hredirect

end Tracked

/-! ## What the steps preserve -/

namespace RedisClusterClient

variable {client client' : RedisClusterClient} {announced : Slot → Option Endpoint}

theorem owned_addNode (h : client.addNode address = some client')
    (howned : client.Owned slot endpoint)
    (hrange : ¬ (address.slotStart.toNat ≤ slot.val ∧ slot.val ≤ address.slotEnd.toNat)) :
    client'.Owned slot endpoint := by
  rw [addNode, assignRange] at h
  split at h
  · cases h
  next hassign =>
  cases h
  split at hassign
  · cases hassign
  cases hassign
  exact howned.extend (extends_append rfl) (if_neg hrange)

theorem owned_setSlotRange (h : client.setSlotRange nodeIndex slotStart slotEnd = some client')
    (howned : client.Owned slot endpoint) (hrange : ¬ (nodeIndex < client.nodes.length ∧
      slotStart.toNat ≤ slot.val ∧ slot.val ≤ slotEnd.toNat)) : client'.Owned slot endpoint := by
  rw [setSlotRange, assignRange] at h
  split at h
  · cases h
    exact howned
  next hindex =>
  split at h
  · cases h
  next hassign =>
  cases h
  split at hassign
  · cases hassign
  cases hassign
  refine howned.extend ?_ (if_neg fun h => hrange ⟨Nat.lt_of_not_le hindex, h⟩)
  intro i endpoint hat
  rw [endpointAt_modify (by intro node; rfl) rfl]
  exact hat

theorem applyClusterSlots_isArray {values : List (RedisReply δ)}
    (h : client.applyClusterSlots values now = .ok client') :
    ∃ first rest, values = first :: rest ∧ first.isArray = true := by
  cases values with
  | nil => cases h
  | cons first rest =>
  rw [applyClusterSlots.eq_def] at h
  simp only at h
  split at h
  · cases h
  next harray => exact ⟨first, rest, rfl, by simpa using harray⟩

end RedisClusterClient

namespace Tracked

variable {tracked : Tracked} {system' : ClusterSystem} {input : ClusterInput δ}

variable {announced : Slot → Option Endpoint}

theorem Inv.call {client : RedisClusterClient} (H : Inv ⟨⟨client, none⟩, announced⟩)
    (hstep : ClusterSystem.step ⟨client, none⟩ input = some system') :
    Inv ⟨system', ClusterSystem.announce ⟨client, none⟩ input announced⟩ := by
  have howned : ∀ slot endpoint, announced slot = some endpoint → client.Owned slot endpoint :=
    H.all_owned rfl
  have hkept : ∀ slot endpoint,
      ClusterSystem.announce ⟨client, none⟩ input announced slot = some endpoint →
      ClusterSystem.reassigns ⟨client, none⟩ input slot = false ∧ client.Owned slot endpoint := by
    intro slot endpoint h
    have hredirect : ClusterSystem.redirect? ⟨client, none⟩ input = none := rfl
    rw [ClusterSystem.announce, hredirect] at h
    simp only at h
    split at h
    · cases h
    next hkeep => exact ⟨Bool.eq_false_iff.2 hkeep, howned slot endpoint h⟩
  cases input with
  | addNode address =>
    obtain ⟨client', hadd, rfl⟩ := Option.map_eq_some_iff.1 hstep
    refine inv_idle fun slot endpoint h => ?_
    obtain ⟨hkeep, howned⟩ := hkept slot endpoint h
    exact RedisClusterClient.owned_addNode hadd howned (of_decide_eq_false hkeep)
  | setSlotRange nodeIndex slotStart slotEnd =>
    obtain ⟨client', hset, rfl⟩ := Option.map_eq_some_iff.1 hstep
    refine inv_idle fun slot endpoint h => ?_
    obtain ⟨hkeep, howned⟩ := hkept slot endpoint h
    exact RedisClusterClient.owned_setSlotRange hset howned (of_decide_eq_false hkeep)
  | setAutoRefreshInterval interval =>
    cases hstep
    refine inv_idle fun slot endpoint h => ?_
    have howned := (hkept slot endpoint h).2
    unfold RedisClusterClient.setAutoRefreshInterval
    split
    · exact howned
    exact howned
  | refreshSlots =>
    cases hstep
    exact inv_of_control (fun slot endpoint h => (hkept slot endpoint h).2)
      (RedisClusterClient.controlOk_refreshSlots _)
  | execute cmd args routingKey autoRetry now =>
    cases hstep
    exact inv_of_control (fun slot endpoint h => (hkept slot endpoint h).2)
      (RedisClusterClient.controlOk_runAutoTask _ _)
  | connected | exchanged => cases hstep

variable {redirect : RedirectInfo}

theorem inv_followRedirect {client : RedisClusterClient}
    (task : ClusterTask) (left : Nat) (hat : client.endpointAt node = some redirect.endpoint)
    (howned : ∀ slot endpoint, announced slot = some endpoint → (redirect.type = .Moved → slot ≠ redirect.slot) → client.Owned slot endpoint)
    (hmoved : redirect.type = .Moved → announced redirect.slot = some redirect.endpoint) :
    Inv ⟨ClusterSystem.ofControl
      (client.followRedirect task left redirect node : RedisClusterClient × Control δ).1
      (client.followRedirect task left redirect node : RedisClusterClient × Control δ).2,
      announced⟩ := by
  refine inv_of_control (fun slot endpoint h => ?_)
    (RedisClusterClient.controlOk_followRedirect task left hat)
  rw [RedisClusterClient.followRedirect_client]
  cases htype : redirect.type with
  | Ask =>
    refine howned slot endpoint h fun hmoved => ?_
    rw [htype] at hmoved
    cases hmoved
  | Moved =>
  by_cases hslot : slot = redirect.slot
  · subst hslot
    rw [hmoved htype] at h
    cases h
    exact RedisClusterClient.owned_setOwner hat
  exact RedisClusterClient.owned_setOwner_of_ne hslot (howned slot endpoint h fun _ => hslot)

theorem announce_connected (client : RedisClusterClient)
    (announced : Slot → Option Endpoint) (result : Except RedisError Unit) :
    ClusterSystem.announce ⟨client, some await⟩ (.connected result : ClusterInput δ) announced =
      announced := by
  cases await <;> rfl

/-- A node was connected, or could not be. -/
theorem Inv.connected {await : Await} (H : Inv ⟨⟨client, some await⟩, announced⟩)
    (hfollows : ClusterSystem.Follows ⟨client, some await⟩ (.connected result : ClusterInput δ))
    (hstep : ClusterSystem.step ⟨client, some await⟩ (.connected result : ClusterInput δ) =
      some system') : Inv ⟨system', announced⟩ := by
  obtain ⟨⟨client', control⟩, hresume, rfl⟩ := Option.map_eq_some_iff.1 hstep
  have hok := H.await await rfl
  cases await with
  | refreshConnect refresher seed =>
    have howned := H.all_owned rfl
    cases result with
    | error error =>
      cases hresume
      exact inv_of_control howned (RedisClusterClient.controlOk_finishRefresh ..)
    | ok =>
    cases hresume
    exact inv_of_control (fun slot endpoint h =>
      RedisClusterClient.owned_setConnected.2 (howned slot endpoint h)) trivial
  | connect task left target =>
    have howned := H.all_owned rfl
    cases result with
    | error error =>
      cases hresume
      exact inv_of_control howned trivial
    | ok =>
    cases hresume
    refine inv_of_control (fun slot endpoint h =>
      RedisClusterClient.owned_setConnected.2 (howned slot endpoint h)) ?_
    intro key hkey endpoint howned
    rw [RedisClusterClient.endpointAt_setConnected]
    exact hok key hkey endpoint (RedisClusterClient.owned_setConnected.1 howned)
  | connectRedirect task left redirect node =>
    have hmoving : redirect.type = .Moved →
        ClusterSystem.moving ⟨client, some (.connectRedirect task left redirect node)⟩ =
          some redirect := fun htype => if_pos htype
    have howned : ∀ slot endpoint, announced slot = some endpoint →
        (redirect.type = .Moved → slot ≠ redirect.slot) → client.Owned slot endpoint := by
      intro slot endpoint h hslot
      refine H.owned slot endpoint h fun moving hmoving => ?_
      rw [ClusterSystem.moving] at hmoving
      simp only at hmoving
      split at hmoving
      · next htype =>
        cases hmoving
        exact (hslot htype).symm
      cases hmoving
    cases result with
    | error error =>
      cases hresume
      refine inv_of_control (fun slot endpoint h => howned slot endpoint h fun htype => ?_) trivial
      rcases of_decide_eq_true hfollows with hne | hok
      · exact absurd htype hne
      cases hok
    | ok =>
    have heq : (client.setConnected node).followRedirect task left redirect node =
        (client', control) := Option.some.inj hresume
    have hinv : Inv ⟨ClusterSystem.ofControl
        ((client.setConnected node).followRedirect task left redirect node :
          RedisClusterClient × Control δ).1
        ((client.setConnected node).followRedirect task left redirect node :
          RedisClusterClient × Control δ).2, announced⟩ := by
      refine inv_followRedirect task left (RedisClusterClient.endpointAt_setConnected.trans hok)
        (fun slot endpoint h hslot => ?_) fun htype => H.moving redirect (hmoving htype)
      exact RedisClusterClient.owned_setConnected.2 (howned slot endpoint h hslot)
    rwa [heq] at hinv
  | refreshCommand | command | asking => cases hresume

/-- The answer to `CLUSTER SLOTS`: a new table, or the old one. -/
theorem Inv.refreshed
    (H : Inv ⟨⟨client, some (.refreshCommand refresher)⟩, announced⟩) (result : ExchangeResult δ)
    (now : Nat) : Inv ⟨ClusterSystem.ofControl (client.resumeRefresh refresher result now).1
        (client.resumeRefresh refresher result now).2,
      ClusterSystem.announce ⟨client, some (.refreshCommand refresher)⟩ (.exchanged result now)
        announced⟩ := by
  have howned : ∀ slot endpoint, ClusterSystem.announce ⟨client, some (.refreshCommand refresher)⟩
      (.exchanged result now) announced slot = some endpoint → client.Owned slot endpoint := by
    intro slot endpoint h
    refine H.all_owned rfl slot endpoint ?_
    have hredirect : ClusterSystem.redirect? ⟨client, some (.refreshCommand refresher)⟩
      (.exchanged result now) = none := rfl
    rw [ClusterSystem.announce, hredirect] at h
    simp only at h
    split at h
    · cases h
    exact h
  cases result with
  | error error => exact inv_of_control howned (RedisClusterClient.controlOk_finishRefresh ..)
  | ok values =>
  cases values with
  | none => exact inv_of_control howned (RedisClusterClient.controlOk_finishRefresh ..)
  | some values =>
  unfold RedisClusterClient.resumeRefresh
  simp only
  split
  · exact inv_of_control howned (RedisClusterClient.controlOk_finishRefresh ..)
  next client' happly =>
  refine inv_of_control (fun slot endpoint h => ?_)
    (RedisClusterClient.controlOk_finishRefresh ..)
  obtain ⟨first, rest, rfl, harray⟩ := RedisClusterClient.applyClusterSlots_isArray happly
  have hnone : ClusterSystem.announce ⟨client, some (.refreshCommand refresher)⟩
      (.exchanged (.ok (some (first :: rest))) now) announced slot = none := if_pos harray
  rw [hnone] at h
  cases h

theorem inv_redirect {client : RedisClusterClient}
    (task : ClusterTask) (left : Nat)
    (hannounced : announced' = match redirect.type with | .Moved => update announced redirect.slot (some redirect.endpoint) | .Ask => announced)
    (hat : client.endpointAt node = some redirect.endpoint)
    (howned : ∀ slot endpoint, announced slot = some endpoint → client.Owned slot endpoint) :
    Inv ⟨ClusterSystem.ofControl
      (if client.isConnected node then client.followRedirect task left redirect node
        else (client, (.waiting (.connectRedirect task left redirect node) : Control δ))).1
      (if client.isConnected node then client.followRedirect task left redirect node
        else (client, (.waiting (.connectRedirect task left redirect node) : Control δ))).2,
      announced'⟩ := by
  have hmoved : redirect.type = .Moved → announced' redirect.slot = some redirect.endpoint := by
    intro htype
    rw [hannounced, htype]
    exact update_self ..
  have howned' : ∀ slot endpoint, announced' slot = some endpoint →
      (redirect.type = .Moved → slot ≠ redirect.slot) → client.Owned slot endpoint := by
    intro slot endpoint h hslot
    apply howned
    rw [hannounced] at h
    cases htype : redirect.type with
    | Ask =>
      rw [htype] at h
      exact h
    | Moved =>
    rw [htype] at h
    simp only at h
    rwa [update_of_ne (hslot htype)] at h
  split
  · exact inv_followRedirect task left hat howned' hmoved
  refine ⟨fun slot endpoint h hmoving => howned' slot endpoint h fun htype => ?_, ?_, ?_⟩
  · exact (hmoving redirect (if_pos htype)).symm
  · intro moving hmoving
    rw [ClusterSystem.moving] at hmoving
    simp only [ClusterSystem.ofControl] at hmoving
    split at hmoving
    · next htype =>
      cases hmoving
      exact hmoved htype
    cases hmoving
  intro await hawait
  cases hawait
  exact hat

theorem Inv.answered
    (H : Inv ⟨⟨client, some (.command task left target)⟩, announced⟩) (result : ExchangeResult δ)
    (now : Nat) : Inv ⟨ClusterSystem.ofControl (client.resumeCommand task left result).1
        (client.resumeCommand task left result).2,
      ClusterSystem.announce ⟨client, some (.command task left target)⟩ (.exchanged result now)
        announced⟩ := by
  have howned := H.all_owned rfl
  match result with
  | .error error => exact inv_of_control howned trivial
  | .ok none => exact inv_of_control howned trivial
  | .ok (some []) => exact inv_of_control howned trivial
  | .ok (some (first :: values)) =>
    have hredirect : ClusterSystem.redirect? ⟨client, some (.command task left target)⟩
      (.exchanged (.ok (some (first :: values))) now) = parseRedirect first := rfl
    unfold RedisClusterClient.resumeCommand ClusterSystem.announce
    simp only [hredirect]
    cases parseRedirect first with
    | none => exact inv_of_control howned trivial
    | some redirect =>
    refine inv_redirect task left rfl
      (RedisClusterClient.findOrCreateNode_endpointAt redirect.host redirect.port) ?_
    intro slot endpoint h
    exact (howned slot endpoint h).extend
      (RedisClusterClient.findOrCreateNode_extends redirect.host redirect.port)
      (congrFun (RedisClusterClient.findOrCreateNode_slotOwner redirect.host redirect.port) slot)

/-- The answer to `ASKING` and a command. -/
theorem Inv.asked {result : ExchangeResult δ}
    (H : Inv ⟨⟨client, some (.asking task left redirect node)⟩, announced⟩)
    (hfollows : ClusterSystem.Follows ⟨client, some (.asking task left redirect node)⟩ (.exchanged result now))
    : Inv ⟨ClusterSystem.ofControl (client.resumeAsking task left node result).1
        (client.resumeAsking task left node result).2,
      ClusterSystem.announce ⟨client, some (.asking task left redirect node)⟩
        (.exchanged result now) announced⟩ := by
  have howned := H.all_owned rfl
  have hat := H.await _ rfl
  match result with
  | .error error => exact inv_of_control howned trivial
  | .ok none => exact inv_of_control howned trivial
  | .ok (some []) => exact inv_of_control howned trivial
  | .ok (some [_]) => exact inv_of_control howned trivial
  | .ok (some (first :: reply :: values)) =>
    have hredirect : ClusterSystem.redirect? ⟨client, some (.asking task left redirect node)⟩
      (.exchanged (.ok (some (first :: reply :: values))) now) = parseRedirect reply := rfl
    have hnamed : ∀ chained, parseRedirect reply = some chained → chained.type = .Moved →
      chained.endpoint = redirect.endpoint := by
      intro chained hparse htype
      have hall : (parseRedirect reply).all (fun chained =>
        decide (chained.type ≠ .Moved ∨ chained.endpoint = redirect.endpoint)) = true := hfollows
      rw [hparse] at hall
      rcases of_decide_eq_true hall with hne | hsame
      · exact absurd htype hne
      exact hsame
    unfold RedisClusterClient.resumeAsking ClusterSystem.announce
    simp only [hredirect]
    cases hparse : parseRedirect reply with
    | none => exact inv_of_control howned trivial
    | some chained =>
    simp only
    cases htype : chained.type with
    | Ask => exact inv_of_control howned (RedisClusterClient.controlOk_attempt ..)
    | Moved =>
    refine inv_of_control (fun slot endpoint h => ?_) (RedisClusterClient.controlOk_attempt ..)
    simp only at h
    by_cases hslot : slot = chained.slot
    · subst hslot
      rw [update_self, hnamed chained hparse htype] at h
      cases h
      exact RedisClusterClient.owned_setOwner hat
    rw [update_of_ne hslot] at h
    exact RedisClusterClient.owned_setOwner_of_ne hslot (howned slot endpoint h)

theorem Inv.step {tracked' : Tracked} (H : tracked.Inv)
    (hstep : FollowingStep δ tracked tracked') : tracked'.Inv := by
  obtain ⟨input, hfollow⟩ := hstep
  obtain ⟨⟨client, await⟩, announced⟩ := tracked
  rw [follow] at hfollow
  split at hfollow
  swap
  · cases hfollow
  next hfollows =>
  obtain ⟨system', hstep, rfl⟩ := Option.map_eq_some_iff.1 hfollow
  cases await with
  | none => exact H.call hstep
  | some await =>
  cases input with
  | connected result =>
    rw [announce_connected]
    exact H.connected hfollows hstep
  | exchanged result now =>
    obtain ⟨⟨client', control⟩, hresume, rfl⟩ := Option.map_eq_some_iff.1 hstep
    cases await with
    | refreshCommand refresher =>
      have heq : client.resumeRefresh refresher result now = (client', control) :=
        Option.some.inj hresume
      have hinv := H.refreshed result now
      rwa [heq] at hinv
    | command task left target =>
      have heq : client.resumeCommand task left result = (client', control) :=
        Option.some.inj hresume
      have hinv := H.answered result now
      rwa [heq] at hinv
    | asking task left redirect node =>
      have heq : client.resumeAsking task left node result = (client', control) :=
        Option.some.inj hresume
      have hinv := H.asked hfollows
      rwa [heq] at hinv
    | refreshConnect | connect | connectRedirect => cases hresume
  | addNode | setSlotRange | setAutoRefreshInterval | refreshSlots | execute => cases hstep

end Tracked

/-! ## `ASK` -/

namespace ClusterSystem

variable {system system' : ClusterSystem} {input : ClusterInput δ}

@[simp]
theorem client_ofControl (client : RedisClusterClient) (control : Control δ) :
    (ofControl client control).client = client := by
  cases control <;> rfl

/-- Only the answer to a command is parsed as a redirect before its node is asked. -/
theorem slotOwner_of_command {client : RedisClusterClient} {first : RedisReply δ}
    (hres : result = .ok (some (first :: values)))
    (hparse : parseRedirect first = some redirect) (htype : redirect.type = .Ask) :
    (client.resumeCommand task left result).1.slotOwner = client.slotOwner := by
  subst hres
  simp only [RedisClusterClient.resumeCommand, hparse]
  split
  · rw [RedisClusterClient.followRedirect_client, htype]
    exact RedisClusterClient.findOrCreateNode_slotOwner ..
  exact RedisClusterClient.findOrCreateNode_slotOwner ..

theorem slotOwner_of_asking {client : RedisClusterClient} {result : ExchangeResult δ}
    (hask : ∀ first reply values redirect, result = .ok (some (first :: reply :: values)) →
      parseRedirect reply = some redirect → redirect.type = .Ask) :
    (client.resumeAsking task left node result).1.slotOwner = client.slotOwner := by
  match result with
  | .error error => rfl
  | .ok none => rfl
  | .ok (some []) => rfl
  | .ok (some [_]) => rfl
  | .ok (some (first :: reply :: values)) =>
    simp only [RedisClusterClient.resumeAsking]
    cases hparse : parseRedirect reply with
    | none => rfl
    | some chained =>
    simp only [hask first reply values chained rfl hparse]

theorem slotOwner_of_handlesAsk (hask : system.HandlesAsk input)
    (hstep : system.step input = some system') :
    system'.client.slotOwner = system.client.slotOwner := by
  obtain ⟨client, await⟩ := system
  cases await with
  | none =>
    rcases hask with ⟨redirect, hredirect, -⟩ | hask
    · cases hredirect
    exact hask.elim
  | some await =>
  cases input with
  | connected result =>
    obtain ⟨⟨client', control⟩, hresume, rfl⟩ := Option.map_eq_some_iff.1 hstep
    rw [client_ofControl]
    cases await with
    | connectRedirect task left redirect node =>
      have htype : redirect.type = .Ask := by
        rcases hask with ⟨redirect, hredirect, -⟩ | hask
        · cases hredirect
        exact hask
      cases result with
      | error error =>
        cases hresume
        rfl
      | ok =>
      have hclient : ((client.setConnected node).followRedirect task left redirect node :
          RedisClusterClient × Control δ).1 = client' :=
        congrArg Prod.fst (Option.some.inj hresume)
      rw [RedisClusterClient.followRedirect_client, htype] at hclient
      rw [← hclient]
      rfl
    | refreshConnect | connect =>
      rcases hask with ⟨redirect, hredirect, -⟩ | hask
      · cases hredirect
      exact hask.elim
    | refreshCommand | command | asking => cases hresume
  | exchanged result now =>
    obtain ⟨⟨client', control⟩, hresume, rfl⟩ := Option.map_eq_some_iff.1 hstep
    rw [client_ofControl]
    cases await with
    | command task left target =>
      have hclient : (client.resumeCommand task left result).1 = client' :=
        congrArg Prod.fst (Option.some.inj hresume)
      rw [← hclient]
      rcases hask with ⟨redirect, hredirect, htype⟩ | hask
      · match result with
        | .error error => cases hredirect
        | .ok none => cases hredirect
        | .ok (some []) => cases hredirect
        | .ok (some (first :: values)) => exact slotOwner_of_command rfl hredirect htype
      exact hask.elim
    | asking task left asked node =>
      have hclient : (client.resumeAsking task left node result).1 = client' :=
        congrArg Prod.fst (Option.some.inj hresume)
      rw [← hclient]
      apply slotOwner_of_asking
      rintro first reply values redirect rfl hparse
      rcases hask with ⟨redirect', hredirect, htype⟩ | hask
      · have hsame : some redirect = some redirect' := hparse.symm.trans hredirect
        cases hsame
        exact htype
      exact hask redirect hparse
    | refreshCommand =>
      rcases hask with ⟨redirect, hredirect, -⟩ | hask
      · cases hredirect
      exact hask.elim
    | refreshConnect | connect | connectRedirect => cases hresume
  | addNode | setSlotRange | setAutoRefreshInterval | refreshSlots | execute => cases hstep

end ClusterSystem

/-- In every run in which a `MOVED` behind an `ASK` names the node that was asked, and the node that
a `MOVED` names can be connected, the requests of a slot go where the last `MOVED` for it says. An
`ASK` changes no owner. -/
theorem requests_follow_redirects (δ : Type) :
    (∀ client tracked, Relation.ReflTransGen (Tracked.FollowingStep δ) { system := { client } }
      tracked → tracked.system.Routed tracked.announced) ∧
    ∀ (system system' : ClusterSystem) (input : ClusterInput δ), system.HandlesAsk input →
      system.step input = some system' →
      system'.client.slotOwner = system.client.slotOwner := by
  refine ⟨fun client tracked hrun => ?_, fun system system' input hask hstep => ?_⟩
  · have hstart : Tracked.Inv { system := { client } } := Tracked.inv_idle nofun
    have hinv : tracked.Inv := invariant_of_reaches (fun _ _ H hstep => H.step hstep) hstart hrun
    exact hinv.routed
  · exact ClusterSystem.slotOwner_of_handlesAsk hask hstep

/-! ## Three nodes -/

section Nodes

/-- One node, which has every slot. -/
def oneNode : Tracked where
  system :=
    { client :=
        { nodes := [{ address := { host := ascii "a", port := 1 }, connected := true }]
          slotOwner := fun _ => 0
          slotCacheReady := true } }

def getFoo : ClusterInput Unit := .execute (ascii "GET") [ascii "foo"] [] false 0

def redirectTo (message : String) : RedisReply Unit := .string .Error (ascii message)

def answer (replies : List (RedisReply Unit)) : ClusterInput Unit :=
  .exchanged (.ok (some replies)) 0

/-- The key and the target of the command that is on its way. -/
def ClusterSystem.sent (system : ClusterSystem) : Option (Option Bytes × Nat) :=
  match system.await with
  | some (.command task _ target) => some (task.key?, target)
  | _ => none

theorem ClusterSystem.await_of_sent {system : ClusterSystem}
    (h : system.sent = some (key?, target)) :
    ∃ task left, system.await = some (.command task left target) ∧ task.key? = key? := by
  obtain ⟨client, await⟩ := system
  match await with
  | some (.command task left target) =>
    cases h
    exact ⟨task, left, rfl, rfl⟩

/-- What is looked at in the end: the request, the address of the second node and the announced
one. -/
structure Outcome where
  sent : Option (Option Bytes × Nat)
  node : Option Endpoint
  announced : Option Endpoint
  deriving DecidableEq

def outcome (tracked : Tracked) : Outcome where
  sent := tracked.system.sent
  node := tracked.system.client.endpointAt 1
  announced := tracked.announced (keySlot (ascii "foo"))

/-- The first node has been sent the command. -/
def waitingNode : ClusterSystem where
  client := oneNode.system.client
  await := some (.command (.ofCommand (ascii "GET") [ascii "foo"] [] false) 0 0)

theorem requests_follow_moved :
    (∃ tracked, Relation.ReflTransGen (Tracked.FollowingStep Unit) oneNode tracked ∧
      tracked.system.sent = some (some (ascii "foo"), 1) ∧
      tracked.announced (keySlot (ascii "foo")) = some (ascii "c", 3) ∧
      tracked.system.client.endpointAt 1 = some (ascii "c", 3)) ∧
    ∃ system', waitingNode.step (answer [redirectTo "ASK 12182 b:2"]) = some system' ∧
      system'.client.slotOwner = waitingNode.client.slotOwner := by
  have hask : waitingNode.redirect? (answer [redirectTo "ASK 12182 b:2"]) =
    some ⟨ascii "b", .Ask, 2, 12182⟩ := by decide +kernel
  refine ⟨?_, _, rfl, (requests_follow_redirects Unit).2 _ _ _ (.inl ⟨_, hask, rfl⟩) rfl⟩
  have hrun : ([getFoo, answer [redirectTo "MOVED 12182 c:3"], .connected (.ok ()), getFoo].foldlM
      Tracked.follow oneNode).map outcome =
      some ⟨some (some (ascii "foo"), 1), some (ascii "c", 3), some (ascii "c", 3)⟩ := by
    decide +kernel
  obtain ⟨tracked, hfold, houtcome⟩ := Option.map_eq_some_iff.1 hrun
  have hreach := reaches_of_foldlM hfold
  have hsent : tracked.system.sent = some (some (ascii "foo"), 1) := congrArg Outcome.sent houtcome
  have hannounced : tracked.announced (keySlot (ascii "foo")) = some (ascii "c", 3) :=
    congrArg Outcome.announced houtcome
  obtain ⟨task, left, hawait, hkey⟩ := ClusterSystem.await_of_sent hsent
  refine ⟨tracked, hreach, hsent, hannounced, ?_⟩
  exact ((requests_follow_redirects Unit).1 _ tracked hreach).command _ _ _ _ _ hawait hkey
    hannounced

/-- A `MOVED` behind an `ASK` that names a third node. -/
theorem requests_miss_chained_moved :
    ¬ ∀ client tracked, Relation.ReflTransGen (Tracked.Step Unit) { system := { client } } tracked →
      tracked.system.Routed tracked.announced := by
  intro h
  have hrun : ([getFoo, answer [redirectTo "ASK 12182 b:2"], .connected (.ok ()),
      answer [.string .SimpleString (ascii "OK"), redirectTo "MOVED 12182 c:3"], getFoo].foldlM
      Tracked.next oneNode).map outcome =
      some ⟨some (some (ascii "foo"), 1), some (ascii "b", 2), some (ascii "c", 3)⟩ := by
    decide +kernel
  obtain ⟨tracked, hfold, houtcome⟩ := Option.map_eq_some_iff.1 hrun
  have hsent : tracked.system.sent = some (some (ascii "foo"), 1) := congrArg Outcome.sent houtcome
  have hat : tracked.system.client.endpointAt 1 = some (ascii "b", 2) := congrArg Outcome.node houtcome
  have hannounced : tracked.announced (keySlot (ascii "foo")) = some (ascii "c", 3) :=
    congrArg Outcome.announced houtcome
  obtain ⟨task, left, hawait, hkey⟩ := ClusterSystem.await_of_sent hsent
  have hrouted := h oneNode.system.client tracked (reaches_of_foldlM hfold)
  rw [hrouted.command task left 1 _ _ hawait hkey hannounced] at hat
  exact absurd hat (by decide)

end Nodes

end Galay.Redis
