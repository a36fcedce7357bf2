import Galay.Rpc.Message

/-!
# What is written is what is read back

A message that may be written is decoded to what it was written from, whatever follows it on the
wire, and no part of it is taken for a message.
-/

namespace Galay.Rpc

open List
open Galay.Lib

/-! ### Metadata -/

theorem length_key (hkey : validateKey key = .ok ()) : key.length ≤ kRpcMetadataMaxKeySize := by
  unfold validateKey at hkey
  split at hkey
  · cases hkey
  split at hkey
  · cases hkey
  next hle => exact Nat.le_of_not_lt hle

@[simp]
theorem entriesSize_cons (entry : MetadataEntry) (entries : List MetadataEntry) :
    entriesSize (entry :: entries) = encodedEntrySize entry.1 entry.2 + entriesSize entries :=
  rfl

theorem entriesSize_perm (h : entries.Perm entries') : entriesSize entries = entriesSize entries' :=
  (h.map _).sum_nat

@[simp]
theorem length_serializeEntry (entry : MetadataEntry) :
    (serializeEntry entry).length = encodedEntrySize entry.1 entry.2 := by
  simp [serializeEntry, encodedEntrySize]
  omega

theorem length_flatMap_serializeEntry (entries : List MetadataEntry) :
    (entries.flatMap serializeEntry).length = entriesSize entries := by
  induction entries with
  | nil => rfl
  | cons entry entries ih =>
  rw [flatMap_cons, length_append, length_serializeEntry, ih, entriesSize_cons]

/-- One entry is read and goes into the container. -/
theorem deserializeEntries_serializeEntry
    (hkey : validateKey entry.1 = .ok ()) (hval : entry.2.length ≤ kRpcMetadataMaxValueSize)
    (hinsert : metadata.insert entry.1 entry.2 = .ok inserted) (count : Nat) (rest : Bytes) :
    deserializeEntries (count + 1) (serializeEntry entry ++ rest) metadata =
      deserializeEntries count rest inserted := by
  have hkeyLen : entry.1.length < 2 ^ (8 * 2) :=
    Nat.lt_of_le_of_lt (length_key hkey) (by decide)
  have hvalueLen : entry.2.length < 2 ^ (8 * 2) := Nat.lt_of_le_of_lt hval (by decide)
  have hroom : ¬ (entry.1 ++ (entry.2 ++ rest)).length < entry.1.length + entry.2.length := by
    simp only [length_append]
    omega
  rw [deserializeEntries, serializeEntry]
  simp only [append_assoc, readBe_append hkeyLen, readBe_append hvalueLen, Option.bind_eq_bind,
    Option.bind_some, if_neg hroom, readBytes_append rfl, hinsert]

/-- Entries with new keys are all read, for as long as they fit. -/
theorem deserializeEntries_flatMap (entries : List MetadataEntry) (metadata : RpcMetadata)
    (hvalid : ∀ entry ∈ entries,
      validateKey entry.1 = .ok () ∧ entry.2.length ≤ kRpcMetadataMaxValueSize)
    (hnodup : (metadata.values.entries ++ entries).NodupKeys)
    (hcount : metadata.size + entries.length ≤ kRpcMetadataMaxEntries)
    (hsize : 2 + 2 + entriesSize (metadata.values.entries ++ entries) ≤ kRpcMetadataMaxWireSize)
    (rest : Bytes) :
    ∃ read, deserializeEntries entries.length (entries.flatMap serializeEntry ++ rest) metadata =
        some (read, rest) ∧
      read.values.entries.Perm (metadata.values.entries ++ entries) := by
  induction entries generalizing metadata with
  | nil =>
    refine ⟨metadata, rfl, ?_⟩
    rw [append_nil]
  | cons entry entries ih =>
  obtain ⟨hkey, hval⟩ := hvalid entry (mem_cons_self ..)
  have hmove : (metadata.values.entries ++ entry :: entries).Perm
      (entry :: metadata.values.entries ++ entries) := perm_middle
  have hnodup' := (perm_nodupKeys hmove).1 hnodup
  have hnew : entry.1 ∉ metadata.values := by
    intro hmem
    refine (List.nodupKeys_cons.1 hnodup').1 ?_
    have hkeys : entry.1 ∈ metadata.values.entries.keys ++ entries.keys :=
      mem_append_left _ (AList.mem_keys.1 hmem)
    rw [← keys_append] at hkeys
    exact hkeys
  rw [entriesSize_perm hmove, cons_append, entriesSize_cons] at hsize
  rw [length_cons] at hcount
  have hfirst : entriesSize metadata.values.entries ≤
      entriesSize (metadata.values.entries ++ entries) := by
    simp [entriesSize]
  obtain ⟨inserted, hinsert, hents⟩ := metadata.insert_new hkey hval hnew
    (by omega) (by omega)
  obtain ⟨read, hread, hperm⟩ := ih inserted
    (fun other hmem => hvalid other (mem_cons_of_mem _ hmem))
    (by rw [hents]; exact hnodup')
    (by unfold RpcMetadata.size at *; rw [hents, length_cons]; omega)
    (by rw [hents, cons_append, entriesSize_cons]; exact hsize)
  refine ⟨read, ?_, ?_⟩
  · rw [flatMap_cons, append_assoc, length_cons,
      deserializeEntries_serializeEntry hkey hval hinsert]
    exact hread
  rw [hents] at hperm
  exact hperm.trans hmove.symm

/-- The container that a decoded block fills holds what the written one held. -/
theorem deserializeEntries_entries (metadata : RpcMetadata)
    (hsize : 2 + 2 + entriesSize metadata.values.entries ≤ kRpcMetadataMaxWireSize)
    (rest : Bytes) :
    ∃ read, deserializeEntries metadata.size
        (metadata.values.entries.flatMap serializeEntry ++ rest) .empty = some (read, rest) ∧
      ∀ key, read.values.lookup key = metadata.values.lookup key := by
  obtain ⟨read, hread, hperm⟩ := deserializeEntries_flatMap metadata.values.entries .empty
    metadata.valid metadata.values.nodupKeys
    (by rw [show RpcMetadata.empty.size = 0 from rfl, Nat.zero_add]; exact metadata.count) hsize rest
  exact ⟨read, hread, fun key => AList.perm_lookup hperm⟩

/-! ### Payloads -/

theorem RpcPayload.length_bytes_of_size {payload : RpcPayload}
    (hsize : payload.payloadSize ≤ RPC_MAX_BODY_SIZE) :
    payload.payloadSize = payload.bytes.length := by
  have hmax : RPC_MAX_BODY_SIZE < 2 ^ 64 - 1 := by decide
  unfold payloadSize RpcPayloadView.size at *
  unfold bytes view
  split at hsize
  · next howned => rw [if_pos howned, if_pos howned]; simp
  next howned =>
  rw [if_neg howned, if_neg howned]
  split at hsize
  · omega
  next hfits => rw [if_neg hfits, length_append]

@[simp]
theorem RpcPayload.bytes_own (payload : Bytes) : (own payload).bytes = payload :=
  append_nil payload

/-! ### Requests -/

namespace RpcRequest

variable {request : RpcRequest}

/-- The bounds that a request to be written keeps. -/
structure Writable (request : RpcRequest) : Prop where
  serviceName : request.serviceName.length < 2 ^ (8 * 2)
  methodName : request.methodName.length < 2 ^ (8 * 2)
  metadata : request.metadata.size ≠ 0 →
    2 + 2 + entriesSize request.metadata.values.entries ≤ kRpcMetadataMaxWireSize
  body : request.serializedBodySize ≤ RPC_MAX_BODY_SIZE

theorem writable_of_validateForWrite (hvalid : request.validateForWrite = .ok ()) :
    request.Writable := by
  unfold validateForWrite at hvalid
  by_cases hservice : 2 ^ 16 - 1 < request.serviceName.length
  · rw [if_pos hservice] at hvalid
    cases hvalid
  by_cases hmethod : 2 ^ 16 - 1 < request.methodName.length
  · rw [if_neg hservice, if_pos hmethod] at hvalid
    cases hvalid
  by_cases hmeta : kRpcMetadataMaxWireSize < request.metadataWireSize
  · rw [if_neg hservice, if_neg hmethod, if_pos hmeta] at hvalid
    cases hvalid
  rw [if_neg hservice, if_neg hmethod, if_neg hmeta] at hvalid
  split at hvalid
  · cases hvalid
  next hbody =>
  refine ⟨by omega, by omega, fun hsize => ?_, Nat.le_of_not_lt fun h => hbody (.inr h)⟩
  rw [metadataWireSize, if_neg hsize] at hmeta
  simp only at hmeta
  split at hmeta
  · exact absurd (Nat.lt_succ_self _) hmeta
  next hle => exact Nat.le_of_not_lt hle

theorem Writable.length_serializeMetadata (H : request.Writable) :
    request.serializeMetadata.length = request.metadataWireSize := by
  unfold serializeMetadata metadataWireSize
  by_cases hsize : request.metadata.size = 0
  · rw [if_pos hsize, if_pos hsize]
    rfl
  have hle := H.metadata hsize
  rw [if_neg hsize, if_neg hsize]
  simp only [length_append, length_toBe, length_flatMap_serializeEntry,
    if_neg (Nat.not_lt_of_le hle)]

theorem Writable.payloadSize (H : request.Writable) :
    request.payload.payloadSize = request.payload.bytes.length := by
  apply RpcPayload.length_bytes_of_size
  have hbody := H.body
  unfold serializedBodySize at hbody
  omega

theorem Writable.length_serializeBody (H : request.Writable) :
    request.serializeBody.length = request.serializedBodySize := by
  unfold serializeBody serializedBodySize
  simp only [length_append, length_toBe, H.length_serializeMetadata, H.payloadSize]
  omega

theorem deserializeBody_serializeBody (hservice : request.serviceName.length < 2 ^ (8 * 2))
    (hmethod : request.methodName.length < 2 ^ (8 * 2))
    (hmeta : request.metadata.size ≠ 0 →
      2 + 2 + entriesSize request.metadata.values.entries ≤ kRpcMetadataMaxWireSize)
    (fields : RpcRequest) :
    ∃ decoded, fields.deserializeBody request.serializeBody (request.metadata.size ≠ 0) =
        some decoded ∧
      decoded.requestId = fields.requestId ∧ decoded.callMode = fields.callMode ∧
      decoded.endOfStream = fields.endOfStream ∧ decoded.serviceName = request.serviceName ∧
      decoded.methodName = request.methodName ∧
      (∀ key, decoded.metadata.values.lookup key = request.metadata.values.lookup key) ∧
      decoded.payload.bytes = request.payload.bytes := by
  have hlen : ¬ request.serializeBody.length < 4 := by
    simp only [serializeBody, length_append, length_toBe]
    omega
  unfold RpcRequest.deserializeBody
  rw [if_neg hlen]
  by_cases hsize : request.metadata.size = 0
  · have hempty : ∀ key, request.metadata.values.lookup key = none := by
      intro key
      rw [AList.lookup_eq_none, AList.mem_keys, AList.keys, List.length_eq_zero_iff.1 hsize]
      exact not_mem_nil
    simp only [hsize, ne_eq, not_true_eq_false, decide_false, serializeBody, serializeMetadata,
      if_true, Bool.false_eq_true, if_false, nil_append, append_assoc, Option.bind_eq_bind,
      Option.bind_some, readBe_append hservice, readBe_append hmethod, readBytes_append rfl]
    exact ⟨_, rfl, rfl, rfl, rfl, rfl, rfl, fun key => (hempty key).symm, RpcPayload.bytes_own _⟩
  have hcount : request.metadata.size < 2 ^ (8 * 2) :=
    Nat.lt_of_le_of_lt request.metadata.count (by decide)
  have hents : ¬ kRpcMetadataMaxEntries < request.metadata.size :=
    Nat.not_lt_of_le request.metadata.count
  have hmark : kRpcRequestMetadataMarker < 2 ^ (8 * 2) := by decide
  obtain ⟨read, hread, hlook⟩ := deserializeEntries_entries request.metadata (hmeta hsize)
    (toBe 2 request.serviceName.length ++ (request.serviceName ++
      (toBe 2 request.methodName.length ++ (request.methodName ++ request.payload.bytes))))
  simp only [hsize, ne_eq, not_false_eq_true, decide_true, serializeBody, serializeMetadata,
    if_false, if_true, append_assoc, Option.bind_eq_bind, Option.bind_some,
    readBe_append hmark, readBe_append hcount, not_true_eq_false,
    hents, hread, readBe_append hservice, readBe_append hmethod, readBytes_append rfl]
  exact ⟨_, rfl, rfl, rfl, rfl, rfl, rfl, hlook, RpcPayload.bytes_own _⟩

end RpcRequest

/-! ### Responses -/

namespace RpcResponse

variable {response : RpcResponse}

theorem payloadSize_of_validateForWrite (hvalid : response.validateForWrite = .ok ()) :
    response.payload.payloadSize = response.payload.bytes.length ∧
      2 + response.payload.bytes.length ≤ RPC_MAX_BODY_SIZE := by
  unfold validateForWrite at hvalid
  simp only at hvalid
  split at hvalid
  · cases hvalid
  next hbody =>
  have hle : response.payload.payloadSize ≤ RPC_MAX_BODY_SIZE :=
    Nat.le_of_not_lt fun h => hbody (.inl h)
  have hbytes := RpcPayload.length_bytes_of_size hle
  have hmax : 2 ≤ RPC_MAX_BODY_SIZE := by decide
  refine ⟨hbytes, ?_⟩
  omega

end RpcResponse

/-! ### Messages on the wire -/

/-- The header of a message with this body. -/
structure RpcHeader.Announces (header : RpcHeader) (body : Bytes) : Prop where
  magic : header.magic = RPC_MAGIC
  version : header.version = RPC_VERSION
  type : header.type ≠ RpcMessageType.HEARTBEAT
  bodyLength : header.bodyLength.toNat = body.length
  body : body.length ≤ RPC_MAX_BODY_SIZE

namespace RpcHeader.Announces

variable {header : RpcHeader} {body : Bytes} (H : header.Announces body)

include H

theorem deserialize (rest : Bytes) :
    RpcHeader.deserialize (header.serialize ++ rest) = some header :=
  deserialize_serialize H.magic H.version (H.bodyLength ▸ H.body) H.type rest

theorem decodeHeader (rest : Bytes) :
    RpcCodec.decodeHeader (header.serialize ++ rest) = .COMPLETE header := by
  have hlen : ¬ (header.serialize ++ rest).length < RPC_HEADER_SIZE := by
    rw [length_append, length_serialize]
    omega
  rw [RpcCodec.decodeHeader, if_neg hlen, H.deserialize]

theorem messageLength (trailing : Bytes) :
    RpcCodec.messageLength (header.serialize ++ body ++ trailing) =
      (header.serialize ++ body).length := by
  have hlen : ¬ (header.serialize ++ body ++ trailing).length < RPC_HEADER_SIZE := by
    rw [append_assoc, length_append, length_serialize]
    omega
  rw [RpcCodec.messageLength, if_neg hlen, append_assoc, H.deserialize, length_append,
    length_serialize, ← H.bodyLength]

theorem complete (trailing : Bytes) :
    ¬ (header.serialize ++ body ++ trailing).length <
      RPC_HEADER_SIZE + header.bodyLength.toNat := by
  rw [length_append, length_append, length_serialize, H.bodyLength]
  omega

theorem body_eq (trailing : Bytes) :
    RpcCodec.body (header.serialize ++ body ++ trailing) header = body := by
  rw [RpcCodec.body, append_assoc, H.bodyLength, drop_left' (length_serialize header), take_left]

theorem decodeHeader_cut (hcut : cut ++ rest = header.serialize ++ body) (hrest : rest ≠ []) :
    RpcCodec.decodeHeader cut = .INCOMPLETE ∨ RpcCodec.decodeHeader cut = .COMPLETE header ∧
        cut.length < RPC_HEADER_SIZE + header.bodyLength.toNat := by
  by_cases hlen : cut.length < RPC_HEADER_SIZE
  · exact .inl (if_pos hlen)
  right
  have hfirst : cut.take RPC_HEADER_SIZE = header.serialize := by
    have htake := congrArg (List.take RPC_HEADER_SIZE) hcut
    rwa [take_append_of_le_length (Nat.le_of_not_lt hlen),
      take_left' (length_serialize header)] at htake
  have htotal := congrArg List.length hcut
  have hpos := List.length_pos_iff.2 hrest
  rw [length_append, length_append, length_serialize] at htotal
  rw [← take_append_drop RPC_HEADER_SIZE cut, hfirst, H.decodeHeader]
  refine ⟨rfl, ?_⟩
  rw [← hfirst, take_append_drop, H.bodyLength]
  omega

end RpcHeader.Announces

theorem RpcPayload.size_view {payload : RpcPayload}
    (hlen : payload.bytes.length ≤ RPC_MAX_BODY_SIZE) :
    payload.view.size = payload.bytes.length := by
  have hmax : RPC_MAX_BODY_SIZE < 2 ^ 64 - 1 := by decide
  rw [bytes, length_append] at hlen ⊢
  exact if_neg (by omega)

theorem RpcRequest.Writable.announces {request : RpcRequest} (H : request.Writable) :
    request.header.Announces request.serializeBody := by
  have hbody : request.serializeBody.length ≤ RPC_MAX_BODY_SIZE := by
    rw [H.length_serializeBody]
    exact H.body
  refine ⟨rfl, rfl, nofun, ?_, hbody⟩
  have hmax : RPC_MAX_BODY_SIZE < 2 ^ 32 := by decide
  exact (UInt32.toNat_ofNat_of_lt (Nat.lt_of_le_of_lt H.body hmax)).trans
    H.length_serializeBody.symm

theorem RpcResponse.announces {response : RpcResponse}
    (hvalid : response.validateForWrite = .ok ()) :
    response.header.Announces response.serializeBody := by
  obtain ⟨-, hle⟩ := payloadSize_of_validateForWrite hvalid
  have hlen : response.serializeBody.length = 2 + response.payload.bytes.length := by
    rw [serializeBody, length_append, length_toBe]
  have hsize : 2 + response.payload.view.size = response.serializeBody.length := by
    rw [hlen, RpcPayload.size_view (by omega)]
  have hmax : RPC_MAX_BODY_SIZE < UInt32.size := by decide
  refine ⟨rfl, rfl, nofun, ?_, hlen ▸ hle⟩
  exact (UInt32.toNat_ofNat_of_lt (by rw [hsize, hlen]; omega)).trans hsize

/-- The fields of two requests are the same, whoever owns the payload. -/
structure RpcRequest.SameAs (decoded request : RpcRequest) : Prop where
  requestId : decoded.requestId = request.requestId
  callMode : decoded.callMode = request.callMode
  endOfStream : decoded.endOfStream = request.endOfStream
  serviceName : decoded.serviceName = request.serviceName
  methodName : decoded.methodName = request.methodName
  metadata : ∀ key, decoded.metadata.values.lookup key = request.metadata.values.lookup key
  payload : decoded.payload.bytes = request.payload.bytes

structure RpcResponse.SameAs (decoded response : RpcResponse) : Prop where
  requestId : decoded.requestId = response.requestId
  callMode : decoded.callMode = response.callMode
  endOfStream : decoded.endOfStream = response.endOfStream
  errorCode : decoded.errorCode = response.errorCode
  payload : decoded.payload.bytes = response.payload.bytes

namespace RpcCodec

theorem decodeRequest_serialize (hvalid : request.validateForWrite = .ok ()) (trailing : Bytes) :
    ∃ decoded, decodeRequest (request.serialize ++ trailing) = .ok decoded ∧
      decoded.SameAs request := by
  have H := RpcRequest.writable_of_validateForWrite hvalid
  have hframe := H.announces
  obtain ⟨decoded, hdecoded, hid, hmode, hend, hservice, hmethod, hmeta, hpay⟩ :=
    RpcRequest.deserializeBody_serializeBody H.serviceName H.methodName H.metadata
      { requestId := request.header.requestId
        callMode := rpcDecodeCallMode request.header.flags
        endOfStream := rpcIsEndStream request.header.flags }
  have hreserved : request.header.reserved =
      if request.metadata.size = 0 then 0 else RPC_RESERVED_METADATA := rfl
  have hknown : ¬ request.header.reserved &&& ~~~ RPC_RESERVED_KNOWN_MASK ≠ 0 := by
    rw [hreserved]
    split <;> decide
  have hhas : decide (request.header.reserved &&& RPC_RESERVED_METADATA ≠ 0) =
      decide (request.metadata.size ≠ 0) := by
    rw [hreserved]
    split
    · next hsize => rw [hsize]; rfl
    next hsize => rw [decide_eq_true hsize]; rfl
  refine ⟨decoded, ?_, ?_⟩
  · simp only [RpcRequest.serialize, hvalid]
    rw [decodeRequest, append_assoc, hframe.decodeHeader, ← append_assoc]
    simp only
    rw [if_neg (fun h => h rfl), if_neg hknown, if_neg (hframe.complete trailing),
      hframe.body_eq, hhas, hdecoded]
  exact ⟨hid, hmode.trans (rpcDecodeCallMode_encodeFlags ..),
    hend.trans (rpcIsEndStream_encodeFlags ..), hservice, hmethod, hmeta, hpay⟩

theorem decodeResponse_serialize (hvalid : response.validateForWrite = .ok ()) (trailing : Bytes) :
    ∃ decoded, decodeResponse (response.serialize ++ trailing) = .ok decoded ∧
      decoded.SameAs response := by
  have hframe := RpcResponse.announces hvalid
  have hcode : response.errorCode.value.toNat < 2 ^ (8 * 2) := response.errorCode.value.toNat_lt
  simp only [RpcResponse.serialize, hvalid]
  rw [decodeResponse, append_assoc, hframe.decodeHeader, ← append_assoc]
  simp only
  rw [if_neg (fun h => h rfl), if_neg (hframe.complete trailing), hframe.body_eq]
  simp only [RpcResponse.deserializeBody, RpcResponse.serializeBody, readBe_append hcode,
    Option.bind_eq_bind, Option.bind_some, UInt16.ofNat_toNat]
  exact ⟨_, rfl, rfl, rpcDecodeCallMode_encodeFlags .., rpcIsEndStream_encodeFlags .., rfl,
    RpcPayload.bytes_own _⟩

theorem decodeRequest_cut {header : RpcHeader} {body : Bytes}
    (H : header.Announces body) (hcut : cut ++ rest = header.serialize ++ body)
    (hrest : rest ≠ []) : ∃ error, decodeRequest cut = .error error := by
  rw [decodeRequest]
  rcases H.decodeHeader_cut hcut hrest with hhdr | ⟨hhdr, hlen⟩
  · rw [hhdr]
    exact ⟨_, rfl⟩
  rw [hhdr]
  simp only [hlen, if_true]
  split
  · exact ⟨_, rfl⟩
  split
  · exact ⟨_, rfl⟩
  exact ⟨_, rfl⟩

theorem decodeResponse_cut {header : RpcHeader} {body : Bytes}
    (H : header.Announces body) (hcut : cut ++ rest = header.serialize ++ body)
    (hrest : rest ≠ []) : ∃ error, decodeResponse cut = .error error := by
  rw [decodeResponse]
  rcases H.decodeHeader_cut hcut hrest with hhdr | ⟨hhdr, hlen⟩
  · rw [hhdr]
    exact ⟨_, rfl⟩
  rw [hhdr]
  simp only [hlen, if_true]
  split
  · exact ⟨_, rfl⟩
  exact ⟨_, rfl⟩

/-- A message that passes its check is read back from the front of what follows it, its length is
the one that its header gives, and a part of it is not a message. -/
theorem codec_round_trip :
    (∀ request : RpcRequest, request.validateForWrite = .ok () →
      (∀ trailing : Bytes,
        (∃ decoded, decodeRequest (request.serialize ++ trailing) = .ok decoded ∧
          decoded.SameAs request) ∧
        messageLength (request.serialize ++ trailing) = request.serialize.length) ∧
      ∀ cut rest : Bytes, cut ++ rest = request.serialize → rest ≠ [] →
        ∃ error, decodeRequest cut = .error error) ∧
    (∀ response : RpcResponse, response.validateForWrite = .ok () →
      (∀ trailing : Bytes,
        (∃ decoded, decodeResponse (response.serialize ++ trailing) = .ok decoded ∧
          decoded.SameAs response) ∧
        messageLength (response.serialize ++ trailing) = response.serialize.length) ∧
      ∀ cut rest : Bytes, cut ++ rest = response.serialize → rest ≠ [] →
        ∃ error, decodeResponse cut = .error error) := by
  constructor
  · intro request hvalid
    have hframe := (RpcRequest.writable_of_validateForWrite hvalid).announces
    have hser : request.serialize = request.header.serialize ++ request.serializeBody := by
      rw [RpcRequest.serialize, hvalid]
    refine ⟨fun trailing => ⟨decodeRequest_serialize hvalid trailing, ?_⟩, ?_⟩
    · rw [hser]
      exact hframe.messageLength trailing
    intro cut rest hcut hrest
    exact decodeRequest_cut hframe (hcut.trans hser) hrest
  intro response hvalid
  have hframe := RpcResponse.announces hvalid
  have hser :
      response.serialize = response.header.serialize ++ response.serializeBody := by
    rw [RpcResponse.serialize, hvalid]
  refine ⟨fun trailing => ⟨decodeResponse_serialize hvalid trailing, ?_⟩, ?_⟩
  · rw [hser]
    exact hframe.messageLength trailing
  intro cut rest hcut hrest
  exact decodeResponse_cut hframe (hcut.trans hser) hrest

/-- Two keys, and a payload borrowed in two parts. -/
def ringRequest : RpcRequest where
  requestId := 7
  callMode := .BIDI_STREAMING
  endOfStream := false
  serviceName := ascii "echo"
  methodName := ascii "say"
  metadata :=
    { values := [⟨ascii "a-b", ascii "1"⟩, ⟨ascii "c", []⟩].toAList
      valid := by decide
      count := by decide }
  payload := { payloadView := ⟨[1, 2], [3]⟩, payloadOwned := false }

theorem codec_round_trip_ringRequest :
    ringRequest.validateForWrite = .ok () ∧
      (∃ decoded, decodeRequest (ringRequest.serialize ++ [0xFF]) = .ok decoded ∧
        decoded.SameAs ringRequest) ∧
      ∃ error, decodeRequest (ringRequest.serialize.take 20) = .error error := by
  have hvalid : ringRequest.validateForWrite = .ok () := by decide
  obtain ⟨hread, hcut⟩ := codec_round_trip.1 ringRequest hvalid
  exact ⟨hvalid, (hread [0xFF]).1, hcut _ _ (take_append_drop 20 _) (by decide)⟩

end RpcCodec

end Galay.Rpc
