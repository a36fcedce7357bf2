import Galay.Rpc.CodecRoundTrip

/-!
# The limit of a container and the limit of a request

`insert` leaves the four bytes of the block's head out when the container is empty, so that an entry
can go in alone that no request may carry. Every other call keeps the container within the limit
(`bounded_call_iff`), and what is within the limit is written and read back entry for entry.
-/

namespace Galay.Rpc

open List
open Galay.Lib

namespace RpcMetadata

/-! ## Calls -/

inductive MetadataCall
  | insert (key value : Bytes)
  | remove (key : Bytes)
  | clear
  deriving Repr

variable {metadata : RpcMetadata} {key value : Bytes}

/-- The error of a call and the container that it leaves. -/
def call (metadata : RpcMetadata) : MetadataCall → Except RpcError Unit × RpcMetadata
  | .insert key value =>
    match metadata.insert key value with
    | .error error => (.error error, metadata)
    | .ok inserted => (.ok (), inserted)
  | .remove key => (.ok (), (metadata.remove key).2)
  | .clear => (.ok (), metadata.clear)

theorem call_error (h : (metadata.call c).1 = .error error) : (metadata.call c).2 = metadata := by
  cases c with
  | insert key value =>
    rw [call] at h ⊢
    rcases hinsert : metadata.insert key value with error' | inserted
    · rfl
    rw [hinsert] at h
    cases h
  | remove => cases h
  | clear => cases h

/-- A call that does not put the first entry in where the entry fits and its block does not. -/
def Agrees (metadata : RpcMetadata) : MetadataCall → Prop
  | .insert key value => metadata.size = 0 → validateKey key = .ok () →
      value.length ≤ kRpcMetadataMaxValueSize →
      encodedEntrySize key value ≤ kRpcMetadataMaxWireSize →
      2 + 2 + encodedEntrySize key value ≤ kRpcMetadataMaxWireSize
  | .remove _ => True
  | .clear => True

/-! ## The size of a container -/

/-- The block of the container keeps to the limit. -/
def Bounded (metadata : RpcMetadata) : Prop := metadata.encodedValueSize ≤ kRpcMetadataMaxWireSize

theorem bounded_empty : empty.Bounded := Nat.zero_le _

theorem encodedValueSize_of_size (h : metadata.size ≠ 0) :
    metadata.encodedValueSize = 2 + 2 + entriesSize metadata.values.entries := if_neg h

theorem entriesSize_kerase (h : metadata.values.lookup key = some old) :
    encodedEntrySize key old + entriesSize (metadata.values.entries.kerase key) =
      entriesSize metadata.values.entries := by
  have hmem : (⟨key, old⟩ : MetadataEntry) ∈ metadata.values.entries := AList.mem_lookup_iff.1 h
  obtain ⟨value, before, after, _, hsplit, herased⟩ :=
    exists_of_kerase (mem_keys_of_mem hmem)
  have hval : metadata.values.lookup key = some value := by
    refine AList.mem_lookup_iff.2 ?_
    rw [hsplit]
    exact mem_append_right _ mem_cons_self
  obtain rfl := Option.some.inj (hval.symm.trans h)
  rw [herased, hsplit, entriesSize_perm perm_middle, entriesSize_cons]

theorem entriesSize_kerase_le (key : Bytes) :
    entriesSize (metadata.values.entries.kerase key) ≤ entriesSize metadata.values.entries := by
  rcases hlook : metadata.values.lookup key with _ | old
  · rw [kerase_of_notMem_keys (AList.lookup_eq_none.1 hlook)]
  exact Nat.le.intro ((Nat.add_comm _ _).trans (entriesSize_kerase hlook))

/-- What an insertion did: the entry fits beside the others, and by itself in an empty container. -/
theorem insert_eq_ok (h : metadata.insert key value = .ok inserted) :
    inserted.values = metadata.values.insert key value ∧
      inserted.encodedValueSize = 2 + 2 + entriesSize (metadata.values.insert key value).entries ∧
      validateKey key = .ok () ∧ value.length ≤ kRpcMetadataMaxValueSize ∧
      (metadata.size = 0 → encodedEntrySize key value ≤ kRpcMetadataMaxWireSize) ∧
      (metadata.size ≠ 0 → inserted.encodedValueSize ≤ kRpcMetadataMaxWireSize) := by
  unfold insert at h
  split at h
  · cases h
  next hkey =>
  split at h
  · cases h
  next hval =>
  split at h
  · cases h
  have hencoded : ∀ m : RpcMetadata, m.values = metadata.values.insert key value →
      m.encodedValueSize =
        2 + 2 + entriesSize (metadata.values.insert key value).entries := by
    intro m hm
    rw [← hm]
    refine encodedValueSize_of_size ?_
    rw [size, hm, AList.entries_insert]
    exact Nat.succ_ne_zero _
  -- The size of the other entries is what is left when the old one is taken off.
  rcases hlook : metadata.values.lookup key with _ | old
  · have hkept := kerase_of_notMem_keys (AList.lookup_eq_none.1 hlook)
    simp only [hlook] at h
    split at h
    · cases h
    next hsize =>
    cases h
    refine ⟨rfl, hencoded _ rfl, hkey, Nat.le_of_not_lt hval, fun _ => by omega,
      fun hne => ?_⟩
    rw [encodedValueSize_of_size hne] at hsize
    rw [hencoded _ rfl, AList.entries_insert, entriesSize_cons, hkept]
    dsimp only
    omega
  have hold := entriesSize_kerase hlook
  simp only [hlook] at h
  split at h
  · cases h
  next hsize =>
  cases h
  refine ⟨rfl, hencoded _ rfl, hkey, Nat.le_of_not_lt hval, fun _ => by omega,
    fun hne => ?_⟩
  rw [encodedValueSize_of_size hne, ← hold, ← Nat.add_assoc, Nat.add_right_comm,
    Nat.add_sub_cancel_right] at hsize
  rw [hencoded _ rfl, AList.entries_insert, entriesSize_cons]
  dsimp only
  omega

/-- An entry goes into an empty container when it fits by itself. -/
theorem insert_empty (hempty : metadata.size = 0) (hkey : validateKey key = .ok ())
    (hval : value.length ≤ kRpcMetadataMaxValueSize)
    (hsize : encodedEntrySize key value ≤ kRpcMetadataMaxWireSize) :
    ∃ inserted, metadata.insert key value = .ok inserted ∧
      inserted.values.entries = [⟨key, value⟩] := by
  have hents : metadata.values.entries = [] := List.length_eq_zero_iff.1 hempty
  have hmem : key ∉ metadata.values := by
    rw [AList.mem_keys, AList.keys, hents]
    exact not_mem_nil
  have hcount : ¬ (key ∉ metadata.values ∧ kRpcMetadataMaxEntries ≤ metadata.size) := by
    rw [hempty]
    exact fun h => absurd h.2 (by decide)
  unfold insert
  split
  · next error herr => exact absurd (hkey.symm.trans herr) nofun
  rw [dif_neg (Nat.not_lt_of_le hval), dif_neg hcount]
  simp only [AList.lookup_eq_none.2 hmem]
  have hzero : metadata.encodedValueSize = 0 := if_pos hempty
  rw [hzero, Nat.zero_add, if_neg (Nat.not_lt_of_le hsize)]
  refine ⟨_, rfl, ?_⟩
  rw [AList.entries_insert_of_notMem hmem, hents]

/-- A call keeps a container within the limit if and only if it agrees with the limit. -/
theorem bounded_call_iff (h : metadata.Bounded) (c : MetadataCall) :
    (metadata.call c).2.Bounded ↔ metadata.Agrees c := by
  cases c with
  | insert key value =>
    rcases hinsert : metadata.insert key value with error | inserted
    · have hcall : metadata.call (.insert key value) = (.error error, metadata) := by
        rw [call, hinsert]
      rw [hcall]
      refine ⟨fun _ hempty hkey hval hsize => ?_, fun _ => h⟩
      obtain ⟨inserted, hok, _⟩ := insert_empty hempty hkey hval hsize
      cases hinsert.symm.trans hok
    have hcall : metadata.call (.insert key value) = (.ok (), inserted) := by rw [call, hinsert]
    obtain ⟨_, hencoded, hkey, hval, hfits, hbounded⟩ := insert_eq_ok hinsert
    rw [hcall]
    by_cases hempty : metadata.size = 0
    · have hents : metadata.values.entries = [] := List.length_eq_zero_iff.1 hempty
      have hsize : inserted.encodedValueSize = 2 + 2 + encodedEntrySize key value := by
        rw [hencoded, AList.entries_insert, hents]
        rfl
      rw [Bounded, hsize]
      exact ⟨fun hle _ _ _ _ => hle, fun hagrees => hagrees hempty hkey hval (hfits hempty)⟩
    exact ⟨fun _ hzero => absurd hzero hempty, fun _ => hbounded hempty⟩
  | remove key =>
    refine ⟨fun _ => trivial, fun _ => ?_⟩
    show (metadata.remove key).2.encodedValueSize ≤ _
    rcases hkey : validateKey key with error | ok
    · rw [remove, hkey]
      exact h
    have hents : (metadata.remove key).2.values.entries =
        metadata.values.entries.kerase key := by
      rw [remove, hkey]
      rfl
    by_cases hsize : (metadata.remove key).2.size = 0
    · rw [encodedValueSize, if_pos hsize]
      exact Nat.zero_le _
    have hne : metadata.size ≠ 0 := by
      intro hzero
      rw [size, hents, List.length_eq_zero_iff.1 hzero] at hsize
      exact hsize rfl
    have hle := @entriesSize_kerase_le metadata key
    rw [Bounded, encodedValueSize_of_size hne] at h
    rw [encodedValueSize_of_size hsize, hents]
    omega
  | clear => exact ⟨fun _ => trivial, fun _ => bounded_empty⟩

/-! ## What is written of a container -/

/-- What a request asks of its metadata, in whatever order they are iterated: that they keep to the
limit of a write, and that they are read back entry for entry. -/
structure Sendable (metadata : RpcMetadata) : Prop where
  limit (request : RpcRequest) (h : request.metadata.values.entries.Perm metadata.values.entries) :
    request.metadataWireSize ≤ kRpcMetadataMaxWireSize
  accepted (request fields : RpcRequest)
    (h : request.metadata.values.entries.Perm metadata.values.entries)
    (hservice : request.serviceName.length < 2 ^ (8 * 2))
    (hmethod : request.methodName.length < 2 ^ (8 * 2)) :
    ∃ decoded, fields.deserializeBody request.serializeBody (request.metadata.size ≠ 0) =
        some decoded ∧
      ∀ key, decoded.metadata.values.lookup key = metadata.values.lookup key

theorem sendable_iff : metadata.Sendable ↔ metadata.Bounded := by
  constructor
  · intro h
    have hlimit := h.limit { metadata := metadata } (List.Perm.refl _)
    rw [RpcRequest.metadataWireSize] at hlimit
    rw [Bounded, encodedValueSize]
    dsimp only at hlimit
    split
    · exact Nat.zero_le _
    next hsize =>
    rw [if_neg hsize] at hlimit
    split at hlimit
    · exact absurd hlimit (Nat.not_succ_le_self _)
    exact hlimit
  intro h
  have hbounded : ∀ request : RpcRequest,
      request.metadata.values.entries.Perm metadata.values.entries →
      request.metadata.size ≠ 0 →
      2 + 2 + entriesSize request.metadata.values.entries ≤ kRpcMetadataMaxWireSize := by
    intro request hperm hne
    have hsize : metadata.size ≠ 0 := by
      rw [size, ← hperm.length_eq]
      exact hne
    rw [entriesSize_perm hperm, ← encodedValueSize_of_size hsize]
    exact h
  refine ⟨fun request hperm => ?_, fun request fields hperm hservice hmethod => ?_⟩
  · rw [RpcRequest.metadataWireSize]
    split
    · exact Nat.zero_le _
    next hne =>
    have hle := hbounded request hperm hne
    rw [if_neg (Nat.not_lt_of_le hle)]
    exact hle
  obtain ⟨decoded, hdecoded, _, _, _, _, _, hlook, _⟩ :=
    RpcRequest.deserializeBody_serializeBody hservice hmethod (hbounded request hperm) fields
  exact ⟨decoded, hdecoded, fun key => (hlook key).trans (AList.perm_lookup hperm)⟩

/-! ## Runs -/

/-- The containers that agreeing calls make of an empty one. -/
inductive Reached : RpcMetadata → Prop
  | empty : Reached empty
  | call {m : RpcMetadata} (h : Reached m) (c : MetadataCall) (hagrees : m.Agrees c) :
    Reached (m.call c).2

theorem Reached.bounded (h : Reached metadata) : metadata.Bounded := by
  induction h with
  | empty => exact bounded_empty
  | call h c hagrees ih => exact (bounded_call_iff ih c).2 hagrees

/-- A call that fails leaves the container as it is. A container that agreeing calls make of an
empty one can be sent, and a call leaves a container that can be sent exactly when it agrees. -/
theorem sendable_of_reached (metadata : RpcMetadata) :
    (∀ (c : MetadataCall) (error : RpcError), (metadata.call c).1 = .error error →
      (metadata.call c).2 = metadata) ∧
    (Reached metadata → metadata.Sendable) ∧
    (metadata.Sendable → ∀ c : MetadataCall,
      (metadata.call c).2.Sendable ↔ metadata.Agrees c) :=
  ⟨fun _ _ h => call_error h, fun h => sendable_iff.2 h.bounded, fun h c =>
    sendable_iff.trans (bounded_call_iff (sendable_iff.1 h) c)⟩

/-- An entry goes in, is replaced and is removed. -/
theorem sendable_of_reached_three :
    ((((empty.call (.insert (ascii "trace") [1])).2.call (.insert (ascii "trace") [2, 3])).2.call
      (.remove (ascii "trace"))).2).Sendable := by
  have hfirst : empty.Agrees (.insert (ascii "trace") [1]) := fun _ _ _ _ => by decide
  have hsecond : (empty.call (.insert (ascii "trace") [1])).2.Agrees
      (.insert (ascii "trace") [2, 3]) := fun _ _ _ _ => by decide
  exact (sendable_of_reached _).2.1
    (((Reached.empty.call _ hfirst).call _ hsecond).call (.remove (ascii "trace")) trivial)

/-- A value of 65531 bytes behind a key of one byte goes into an empty container, and no request
carries it. -/
theorem not_sendable_of_insert :
    ¬ ∀ c : MetadataCall, (empty.call c).2.Sendable := by
  intro h
  have hlen : (List.replicate 65531 (0 : UInt8)).length = 65531 := length_replicate
  have hagrees := (bounded_call_iff bounded_empty _).1
    (sendable_iff.1 (h (.insert (ascii "k") (List.replicate 65531 0))))
  have hsize : encodedEntrySize (ascii "k") (List.replicate 65531 0) = 65536 := by
    rw [encodedEntrySize, hlen]
    rfl
  have hle := hagrees rfl rfl (by rw [hlen]; decide) (by rw [hsize]; decide)
  rw [hsize] at hle
  exact absurd hle (by decide)

end RpcMetadata

end Galay.Rpc
