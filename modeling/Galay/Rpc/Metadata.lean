import Galay.Rpc.Base
import Mathlib.Data.List.AList

/-!
# Metadata of a call (`galay-rpc/kernel/rpc_metadata.h`)

The entries of a metadata container are listed in the order in which it is iterated, which is any
order. A container is one that `insert` could have filled.
-/

namespace Galay.Rpc

open List Galay.Lib

def kRpcMetadataMaxKeySize : Nat := 128
def kRpcMetadataMaxValueSize : Nat := 65535
def kRpcMetadataMaxEntries : Nat := 256
def kRpcMetadataMaxWireSize : Nat := 64 * 1024

/-- `std::isalnum` in the C locale, `_`, `-` and `.`. -/
def isKeyChar (ch : UInt8) : Bool :=
  (0x30 ≤ ch ∧ ch ≤ 0x39) ∨ (0x41 ≤ ch ∧ ch ≤ 0x5A) ∨ (0x61 ≤ ch ∧ ch ≤ 0x7A) ∨
    ch = 0x5F ∨ ch = 0x2D ∨ ch = 0x2E

def validateKey (key : Bytes) : Except RpcError Unit :=
  if key = [] then .error ⟨.INVALID_REQUEST, "Metadata key is empty"⟩
  else if kRpcMetadataMaxKeySize < key.length then
    .error ⟨.INVALID_REQUEST, "Metadata key is too long"⟩
  else if key.all isKeyChar then .ok ()
  else .error ⟨.INVALID_REQUEST, "Metadata key contains invalid character"⟩

abbrev MetadataEntry := Sigma fun _ : Bytes => Bytes

def encodedEntrySize (key value : Bytes) : Nat := 2 + 2 + key.length + value.length

def entriesSize (entries : List MetadataEntry) : Nat :=
  (entries.map fun entry => encodedEntrySize entry.1 entry.2).sum

structure RpcMetadata where
  values : AList fun _ : Bytes => Bytes := ∅
  valid : ∀ entry ∈ values.entries,
    validateKey entry.1 = .ok () ∧ entry.2.length ≤ kRpcMetadataMaxValueSize := by nofun
  count : values.entries.length ≤ kRpcMetadataMaxEntries := by decide

namespace RpcMetadata

def empty : RpcMetadata := {}

variable (metadata : RpcMetadata)

def size : Nat := metadata.values.entries.length

def encodedValueSize : Nat :=
  if metadata.size = 0 then 0 else 2 + 2 + entriesSize metadata.values.entries

theorem valid_insert (hkey : validateKey key = .ok ())
    (hval : value.length ≤ kRpcMetadataMaxValueSize) :
    ∀ entry ∈ (metadata.values.insert key value).entries,
      validateKey entry.1 = .ok () ∧ entry.2.length ≤ kRpcMetadataMaxValueSize := by
  intro entry hmem
  rw [AList.entries_insert] at hmem
  rcases mem_cons.1 hmem with rfl | hmem
  · exact ⟨hkey, hval⟩
  exact metadata.valid entry ((kerase_sublist key _).mem hmem)

theorem count_insert (hcount : ¬ (key ∉ metadata.values ∧ kRpcMetadataMaxEntries ≤ metadata.size)) :
    (metadata.values.insert key value).entries.length ≤ kRpcMetadataMaxEntries := by
  by_cases hmem : key ∈ metadata.values
  · obtain ⟨old, hold⟩ := exists_of_mem_keys (AList.mem_keys.1 hmem)
    have hlen : (kerase key metadata.values.entries).length =
        metadata.values.entries.length - 1 :=
      length_eraseP_of_mem hold (decide_eq_true rfl)
    have hpos := length_pos_of_mem hold
    have hle := metadata.count
    rw [AList.entries_insert, length_cons, hlen]
    omega
  rw [AList.entries_insert_of_notMem hmem, length_cons]
  exact Nat.lt_of_not_le fun hle => hcount ⟨hmem, hle⟩

def insert (key value : Bytes) : Except RpcError RpcMetadata :=
  match hkey : validateKey key with
  | .error error => .error error
  | .ok () =>
    if hval : kRpcMetadataMaxValueSize < value.length then
      .error ⟨.INVALID_REQUEST, "Metadata value is too large"⟩
    else if hcount : key ∉ metadata.values ∧ kRpcMetadataMaxEntries ≤ metadata.size then
      .error ⟨.RESOURCE_EXHAUSTED, "Metadata entry limit exceeded"⟩
    else
      let previousSize := metadata.encodedValueSize
      let nextSize := match metadata.values.lookup key with
        | some old => previousSize - encodedEntrySize key old
        | none => previousSize
      if kRpcMetadataMaxWireSize < nextSize + encodedEntrySize key value then
        .error ⟨.RESOURCE_EXHAUSTED, "Metadata wire size limit exceeded"⟩
      else
        .ok {
          values := metadata.values.insert key value
          valid := metadata.valid_insert hkey (Nat.le_of_not_lt hval)
          count := metadata.count_insert hcount }

/-- Whether the key was there, and what is left. -/
def remove (key : Bytes) : Bool × RpcMetadata :=
  match validateKey key with
  | .error _ => (false, metadata)
  | .ok () =>
    (decide (key ∈ metadata.values), {
      values := metadata.values.erase key
      valid entry hmem := metadata.valid entry ((kerase_sublist key _).mem hmem)
      count := Nat.le_trans (kerase_sublist key _).length_le metadata.count })

def clear (_ : RpcMetadata) : RpcMetadata := {}

theorem insert_new (hkey : validateKey key = .ok ())
    (hval : value.length ≤ kRpcMetadataMaxValueSize) (hmem : key ∉ metadata.values)
    (hcount : metadata.size < kRpcMetadataMaxEntries)
    (hsize : 2 + 2 + entriesSize metadata.values.entries + encodedEntrySize key value ≤
      kRpcMetadataMaxWireSize) : ∃ inserted, metadata.insert key value = .ok inserted ∧
      inserted.values.entries = ⟨key, value⟩ :: metadata.values.entries := by
  have hnew : ¬ (key ∉ metadata.values ∧ kRpcMetadataMaxEntries ≤ metadata.size) := fun h =>
    Nat.not_le_of_lt hcount h.2
  have hprevious : metadata.encodedValueSize ≤ 2 + 2 + entriesSize metadata.values.entries := by
    unfold encodedValueSize
    split
    · exact Nat.zero_le _
    exact Nat.le_refl _
  unfold insert
  split
  · next error herr => exact absurd (hkey.symm.trans herr) nofun
  rw [dif_neg (Nat.not_lt_of_le hval), dif_neg hnew]
  simp only [AList.lookup_eq_none.2 hmem]
  rw [if_neg (Nat.not_lt_of_le (Nat.le_trans (Nat.add_le_add_right hprevious _) hsize))]
  exact ⟨_, rfl, AList.entries_insert_of_notMem hmem⟩

end RpcMetadata

end Galay.Rpc
