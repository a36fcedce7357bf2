import Galay.Http2.Frame

/-!
# The frame codec round trips

For each frame class there are two lemmas: `parsePayload_payload`, what the parser makes of the
payload the class writes, and `payload_of_parsePayload`, that an accepted payload is written
back. The header has its own pair. `Http2FrameCodec.decode` and `Http2FrameCodec.encode` are put
together from these.
-/

namespace Galay.Http2

open List
open Lib

/-! ## Statement -/

namespace Http2Frame

/-- The fields of the payload fit their places on the wire, and a frame of the connection is on
stream `0`. -/
def FieldsInRange : Http2Frame → Prop
  | .headers frame => frame.streamDependency.toNat < 2 ^ 31
  | .priority frame => frame.streamDependency.toNat < 2 ^ 31
  | .settings frame => frame.header.streamId = 0 ∧ (frame.header.isAck → frame.settings = [])
  | .pushPromise frame => frame.promisedStreamId.toNat < 2 ^ 31
  | .ping frame => frame.header.streamId = 0
  | .goAway frame => frame.header.streamId = 0 ∧ frame.lastStreamId.toNat < 2 ^ 31
  | .windowUpdate frame => 0 < frame.windowSizeIncrement.toNat ∧
      frame.windowSizeIncrement.toNat < 2 ^ 31
  | _ => True

/-- The type in the header is that of the class, and all fields are in range. -/
structure InRange (frame : Http2Frame) : Prop where
  type_eq : frame.header.type = frame.kind
  payload_lt : frame.payload.length < 2 ^ 24
  streamId_lt : frame.header.streamId.toNat < 2 ^ 31
  fields : frame.FieldsInRange

/-- The second frame carries the fields of the first. A pad length without PADDED and a priority
without PRIORITY are not part of a frame. -/
def SameFields : Http2Frame → Http2Frame → Prop
  | .data f, .data g => g.data = f.data ∧ (f.header.isPadded → g.padLength = f.padLength)
  | .headers f, .headers g => g.headerBlock = f.headerBlock ∧
      (f.header.isPadded → g.padLength = f.padLength) ∧
      (f.header.hasPriority → g.exclusive = f.exclusive ∧
        g.streamDependency = f.streamDependency ∧ g.weight = f.weight)
  | .priority f, .priority g => g.exclusive = f.exclusive ∧
      g.streamDependency = f.streamDependency ∧ g.weight = f.weight
  | .rstStream f, .rstStream g => g.errorCode = f.errorCode
  | .settings f, .settings g => g.settings = f.settings
  | .pushPromise f, .pushPromise g => g.promisedStreamId = f.promisedStreamId ∧
      g.headerBlock = f.headerBlock ∧ (f.header.isPadded → g.padLength = f.padLength)
  | .ping f, .ping g => g.opaqueData = f.opaqueData
  | .goAway f, .goAway g => g.lastStreamId = f.lastStreamId ∧ g.errorCode = f.errorCode ∧
      g.debugData = f.debugData
  | .windowUpdate f, .windowUpdate g => g.windowSizeIncrement = f.windowSizeIncrement
  | .continuation f, .continuation g => g.headerBlock = f.headerBlock
  | _, _ => False

/-- The padding of a padded frame is zero. -/
def ZeroPadding (header : Http2FrameHeader) (padLength : UInt8) (payload : Bytes) : Prop :=
  header.isPadded → ∀ b ∈ payload.drop (payload.length - padLength.toNat), b = 0

/-- Reserved bits and padding of an accepted payload are zero. -/
def CleanPayload (payload : Bytes) : Http2Frame → Prop
  | .data frame => ZeroPadding frame.header frame.padLength payload
  | .headers frame => ZeroPadding frame.header frame.padLength payload
  | .pushPromise frame => ZeroPadding frame.header frame.padLength payload ∧
      payload.getD (if frame.header.isPadded then 1 else 0) 0 &&& 0x80 = 0
  | .goAway _ => payload.getD 0 0 &&& 0x80 = 0
  | .windowUpdate _ => payload.getD 0 0 &&& 0x80 = 0
  | _ => True

/-- Accepted bytes whose reserved bits and padding are zero, with stream `0` where the frame
belongs to the connection. -/
structure Clean (bytes : Bytes) (frame : Http2Frame) : Prop where
  streamId : bytes.getD 5 0 &&& 0x80 = 0
  payload : CleanPayload ((bytes.drop 9).take
    (Http2FrameHeader.deserialize bytes).length.toNat) frame
  connection : frame.kind ∈ [.Settings, .Ping, .GoAway] → frame.header.streamId = 0

end Http2Frame

/-! ## The header -/

namespace Http2FrameHeader

variable {header : Http2FrameHeader}

@[simp] theorem length_serialize (header : Http2FrameHeader) : header.serialize.length = 9 := by
  simp [serialize]

theorem deserialize_serialize (header : Http2FrameHeader) (hlength : header.length.toNat < 2 ^ 24)
    (hid : header.streamId.toNat < 2 ^ 31) (htype : .ofByte header.type.toByte = header.type)
    (rest : Bytes) : deserialize (header.serialize ++ rest) = header := by
  have h3 : (toBe 3 header.length.toNat).length = 3 := length_toBe ..
  have h4 : (toBe 4 (header.streamId &&& 0x7FFFFFFF).toNat).length = 4 := length_toBe ..
  have hlen : UInt32.ofNat (ofBe (toBe 3 header.length.toNat)) = header.length := by
    rw [ofBe_toBe hlength, UInt32.ofNat_toNat]
  have hsid : UInt32.ofNat (ofBe (toBe 4 (header.streamId &&& 0x7FFFFFFF).toNat)) &&& 0x7FFFFFFF =
      header.streamId := by
    rw [ofNat_ofBe_toBe, and_31_of_lt hid, and_31_of_lt hid]
  have hsplit : header.serialize ++ rest = toBe 3 header.length.toNat ++
      (header.type.toByte :: header.flags ::
        (toBe 4 (header.streamId &&& 0x7FFFFFFF).toNat ++ rest)) := by
    simp only [serialize, append_assoc, cons_append, nil_append]
  rw [hsplit]
  simp only [deserialize]
  rw [take_left' h3, hlen]
  have hdrop : ∀ {n} (tail : Bytes), (toBe 3 header.length.toNat ++ tail).getD (3 + n) 0 =
      tail.getD n 0 := by
    intro n tail
    rw [getD_eq_getElem?_getD, getElem?_append_right (by omega), h3,
      Nat.add_sub_cancel_left, getD_eq_getElem?_getD]
  have hfive : (toBe 3 header.length.toNat ++ (header.type.toByte :: header.flags ::
      (toBe 4 (header.streamId &&& 0x7FFFFFFF).toNat ++ rest))).drop 5 =
      toBe 4 (header.streamId &&& 0x7FFFFFFF).toNat ++ rest := by
    rw [drop_append, h3, drop_eq_nil_of_le (by omega)]
    rfl
  rw [hfive, take_left' h4, hsid, @hdrop 0, @hdrop 1]
  simp [htype]

/-- A header that was read writes the nine bytes it was read from. -/
theorem serialize_deserialize (hlen : 9 ≤ bytes.length)
    (hid : bytes.getD 5 0 &&& 0x80 = 0) : (deserialize bytes).serialize = bytes.take 9 := by
  match bytes, hlen with
  | b0 :: b1 :: b2 :: b3 :: b4 :: b5 :: b6 :: b7 :: b8 :: rest, _ =>
    have hlt : ofBe [b0, b1, b2] < 2 ^ 32 :=
      Nat.lt_trans (ofBe_lt [b0, b1, b2]) (show 2 ^ 24 < 2 ^ 32 by decide)
    have hlength : toBe 3 (UInt32.ofNat (ofBe [b0, b1, b2])).toNat = [b0, b1, b2] := by
      rw [UInt32.toNat_ofNat_of_lt' hlt]
      exact toBe_ofBe [b0, b1, b2]
    show toBe 3 (UInt32.ofNat (ofBe [b0, b1, b2])).toNat ++
        [(Http2FrameType.ofByte b3).toByte, b4] ++
        toBe 4 (UInt32.ofNat (ofBe [b5, b6, b7, b8]) &&& 0x7FFFFFFF &&& 0x7FFFFFFF).toNat =
      [b0, b1, b2, b3, b4, b5, b6, b7, b8]
    have hword : toBe 4 (UInt32.ofNat (ofBe [b5, b6, b7, b8]) &&& 0x7FFFFFFF &&& 0x7FFFFFFF).toNat =
        [b5, b6, b7, b8] := toBe_and_31_ofBe rfl hid
    rw [hlength, hword, Http2FrameType.toByte_ofByte]
    rfl

theorem isPadded_congr {h h' : Http2FrameHeader} (hflags : h.flags = h'.flags) :
    h.isPadded = h'.isPadded := by simp only [isPadded, hasFlag, hflags]

theorem hasPriority_congr {h h' : Http2FrameHeader} (hflags : h.flags = h'.flags) :
    h.hasPriority = h'.hasPriority := by simp only [hasPriority, hasFlag, hflags]

theorem isAck_congr {h h' : Http2FrameHeader} (hflags : h.flags = h'.flags) :
    h.isAck = h'.isAck := by simp only [isAck, hasFlag, hflags]

end Http2FrameHeader

/-! ## Padding and priority -/

section Fields
open Http2FrameHeader

variable {header h : Http2FrameHeader} {padLength : UInt8} {data rest : Bytes}

theorem readPadLength_padField (hflags : h.flags = header.flags) (rest : Bytes) :
    readPadLength h (header.padField padLength ++ rest) =
      .ok (if header.isPadded then padLength else 0, rest) := by
  unfold readPadLength padField
  rw [isPadded_congr hflags]
  cases header.isPadded with
  | false => rfl
  | true => rfl

theorem dropPadding_padding (hflags : h.flags = header.flags) (padLength : UInt8) (block : Bytes) :
    dropPadding h (if header.isPadded then padLength else 0)
      (block ++ header.padding padLength) = .ok block := by
  rw [dropPadding, padding, isPadded_congr hflags]
  cases header.isPadded with
  | false => simp
  | true =>
  simp only [if_true, length_append, length_replicate, Nat.add_sub_cancel]
  rw [if_neg (by omega), take_left]

/-- The pad length and what follows it make up the payload. -/
theorem padField_of_readPadLength (hread : readPadLength header data = .ok (padLength, rest)) :
    header.padField padLength ++ rest = data := by
  unfold readPadLength at hread
  unfold padField
  split at hread
  · next hpad =>
    cases data with
    | nil => cases hread
    | cons b data =>
    cases hread
    rw [if_pos hpad]
    rfl
  next hpad =>
  cases hread
  rw [if_neg hpad]
  rfl

/-- Zero padding is written back behind what stands in front of it. -/
theorem padding_of_dropPadding (hdrop : dropPadding header padLength data = .ok block)
    (hzero : header.isPadded → ∀ b ∈ data.drop (data.length - padLength.toNat), b = 0) :
    block ++ header.padding padLength = data := by
  unfold dropPadding at hdrop
  unfold padding
  cases hpad : header.isPadded with
  | false =>
    simp only [hpad, Bool.false_eq_true, if_false, Nat.sub_zero, take_length] at hdrop
    cases hdrop
    exact append_nil _
  | true =>
  simp only [hpad, if_true] at hdrop
  split at hdrop
  · cases hdrop
  next hle =>
    cases hdrop
    have hrep : data.drop (data.length - padLength.toNat) = List.replicate padLength.toNat 0 := by
      refine List.eq_replicate_iff.2 ⟨?_, hzero hpad⟩
      rw [length_drop]
      omega
    rw [if_pos rfl, ← hrep, take_append_drop]

theorem drop_suffix (front : Bytes) (h : n ≤ back.length) :
    (front ++ back).drop ((front ++ back).length - n) = back.drop (back.length - n) := by
  rw [length_append, Nat.add_sub_assoc h, drop_append,
    drop_eq_nil_of_le (Nat.le_add_right ..), Nat.add_sub_cancel_left, nil_append]

theorem le_of_dropPadding (hdrop : dropPadding header padLength data = .ok block)
    (hpad : header.isPadded = true) : padLength.toNat ≤ data.length := by
  simp only [dropPadding, hpad, if_true] at hdrop
  split at hdrop
  · cases hdrop
  omega

/-- A dependency word: the top bit is the exclusive flag. -/
theorem priorityBytes_word (bytes : Bytes) (hlen : bytes.length = 4) (weight : UInt8) :
    priorityBytes (decide (UInt32.ofNat (ofBe bytes) &&& 0x80000000 ≠ 0))
      (UInt32.ofNat (ofBe bytes) &&& 0x7FFFFFFF) weight = bytes ++ [weight] := by
  have hlt := ofBe_lt bytes
  rw [hlen] at hlt
  have hword := toNat_ofNat_ofBe hlen
  have hlow := toNat_and_31 (UInt32.ofNat (ofBe bytes))
  have htop := and_top_ne_zero (UInt32.ofNat (ofBe bytes))
  rw [hword] at hlow htop
  have hback : (if decide (UInt32.ofNat (ofBe bytes) &&& 0x80000000 ≠ 0) = true then
      UInt32.ofNat (ofBe bytes) &&& 0x7FFFFFFF ||| 0x80000000
      else UInt32.ofNat (ofBe bytes) &&& 0x7FFFFFFF).toNat = ofBe bytes := by
    split
    · next hset =>
      have hge := htop.1 (of_decide_eq_true hset)
      rw [toNat_or_top (by omega), hlow]
      omega
    next hclear =>
    have hge : ¬ 2 ^ 31 ≤ ofBe bytes := fun hge => hclear (decide_eq_true (htop.2 hge))
    rw [hlow]
    omega
  rw [priorityBytes, hback, toBe_ofBe_of_length hlen]

theorem dependency_of_word (exclusive : Bool) {dep : UInt32} (hdep : dep.toNat < 2 ^ 31) :
    decide ((if exclusive then dep ||| 0x80000000 else dep) &&& 0x80000000 ≠ 0) = exclusive ∧
      (if exclusive then dep ||| 0x80000000 else dep) &&& 0x7FFFFFFF = dep := by
  have htop := and_top_ne_zero (if exclusive then dep ||| 0x80000000 else dep)
  cases exclusive with
  | false =>
    simp only [Bool.false_eq_true, if_false] at htop ⊢
    refine ⟨decide_eq_false fun h => ?_, and_31_of_lt hdep⟩
    have := htop.1 h
    omega
  | true =>
  have hor := toNat_or_top hdep
  simp only [if_true] at htop ⊢
  refine ⟨decide_eq_true (htop.2 (by omega)), UInt32.toNat_inj.1 ?_⟩
  rw [toNat_and_31, hor]
  omega

/-- What a parser finds in the five bytes of a priority. -/
theorem priorityBytes_spec (exclusive : Bool) (weight : UInt8) (hdep : dep.toNat < 2 ^ 31) :
    ∃ word, word.length = 4 ∧ priorityBytes exclusive dep weight = word ++ [weight] ∧
      decide (UInt32.ofNat (ofBe word) &&& 0x80000000 ≠ 0) = exclusive ∧
      UInt32.ofNat (ofBe word) &&& 0x7FFFFFFF = dep := by
  obtain ⟨hexcl, hmask⟩ := dependency_of_word exclusive hdep
  refine ⟨_, length_toBe 4 _, rfl, ?_, ?_⟩
  · rw [ofNat_ofBe_toBe]
    exact hexcl
  rw [ofNat_ofBe_toBe]
  exact hmask

theorem getD_four {word : Bytes} (hlen : word.length = 4) (b : UInt8) (rest : Bytes) :
    (word ++ b :: rest).getD 4 0 = b := by
  rw [getD_eq_getElem?_getD, getElem?_append_right (Nat.le_of_eq hlen), hlen]
  rfl

end Fields

/-! ## The frame classes -/

section Classes
open Http2FrameHeader Http2Frame

variable {header h : Http2FrameHeader} {data : Bytes}

namespace Http2DataFrame

theorem parsePayload_payload (frame : Http2DataFrame) (hflags : h.flags = frame.header.flags) :
    parsePayload h frame.payload =
      .ok ⟨h, frame.data, if frame.header.isPadded then frame.padLength else 0⟩ := by
  unfold parsePayload payload padField padding
  rw [isPadded_congr hflags]
  cases frame.header.isPadded with
  | false => simp
  | true =>
  simp only [if_true, cons_append, nil_append, length_cons, length_append, length_replicate]
  rw [if_neg (by omega), Nat.add_sub_cancel, Nat.add_sub_cancel, take_left]

theorem payload_of_parsePayload {frame : Http2DataFrame}
    (hparse : parsePayload header data = .ok frame)
    (hclean : CleanPayload data (.data frame)) : frame.header = header ∧ frame.payload = data := by
  unfold parsePayload at hparse
  split at hparse
  · next hpad =>
    cases data with
    | nil => cases hparse
    | cons padLength rest =>
    simp only at hparse
    split at hparse
    · cases hparse
    next hlt =>
      cases hparse
      simp only [length_cons] at hlt
      refine ⟨rfl, ?_⟩
      have hdrop : dropPadding header padLength rest =
          .ok (rest.take (rest.length - padLength.toNat)) := by
        simp only [dropPadding, hpad, if_true]
        rw [if_neg (by omega)]
      have hzero := padding_of_dropPadding hdrop fun hp b hb => hclean hp b (by
        rw [← drop_suffix [padLength] (by omega)] at hb
        exact hb)
      show header.padField padLength ++ _ ++ _ = _
      rw [append_assoc, padField, if_pos hpad]
      exact congrArg (padLength :: ·) hzero
  next hpad =>
  cases hparse
  refine ⟨rfl, ?_⟩
  simp only [payload, padField, padding, if_neg hpad, nil_append, append_nil]

end Http2DataFrame

namespace Http2HeadersFrame

theorem parsePriority_priorityBytes (frame : Http2HeadersFrame) {base : Http2HeadersFrame}
    (hflags : base.header.flags = frame.header.flags) (hdep : frame.streamDependency.toNat < 2 ^ 31)
    (rest : Bytes) :
    parsePriority base ((if frame.header.hasPriority then
      priorityBytes frame.exclusive frame.streamDependency frame.weight else []) ++ rest) =
      .ok (if frame.header.hasPriority then { base with
        exclusive := frame.exclusive
        streamDependency := frame.streamDependency
        weight := frame.weight } else base, rest) := by
  rw [parsePriority, hasPriority_congr hflags]
  cases frame.header.hasPriority with
  | false => rfl
  | true =>
  obtain ⟨word, hlen, hbytes, hexcl, hmask⟩ :=
    priorityBytes_spec frame.exclusive frame.weight hdep
  simp only [if_true, hbytes, append_assoc, singleton_append]
  have hge : ¬ (word ++ frame.weight :: rest).length < 5 := by
    rw [length_append, hlen, length_cons]
    omega
  have hdrop : (word ++ frame.weight :: rest).drop 5 = rest := by
    rw [drop_append, hlen, drop_eq_nil_of_le (by omega)]
    rfl
  rw [if_neg hge, take_left' hlen, hexcl, hmask, getD_four hlen, hdrop]

theorem parsePayload_payload (frame : Http2HeadersFrame) (hflags : h.flags = frame.header.flags)
    (hdep : frame.streamDependency.toNat < 2 ^ 31) :
    ∃ g, parsePayload h frame.payload = .ok g ∧ g.header = h ∧
      SameFields (.headers frame) (.headers g) := by
  have hparse : parsePayload h frame.payload = .ok { (if frame.header.hasPriority then
      { header := h
        padLength := if frame.header.isPadded then frame.padLength else 0
        exclusive := frame.exclusive
        streamDependency := frame.streamDependency
        weight := frame.weight }
      else { header := h, padLength := if frame.header.isPadded then frame.padLength else 0 } :
        Http2HeadersFrame) with headerBlock := frame.headerBlock } := by
    simp only [parsePayload, payload, append_assoc, readPadLength_padField hflags]
    rw [parsePriority_priorityBytes frame hflags hdep]
    simp only [dropPadding_padding hflags]
  refine ⟨_, hparse, ?_, ?_⟩
  · split <;> rfl
  refine ⟨rfl, fun hpad => ?_, fun hpri => ?_⟩
  · rw [if_pos hpad]
    split <;> rfl
  rw [if_pos hpri]
  exact ⟨rfl, rfl, rfl⟩

/-- The priority fields that were read are written back. -/
theorem priorityBytes_of_parsePriority (hparse : parsePriority base data = .ok (frame, rest)) :
    frame.header = base.header ∧ frame.padLength = base.padLength ∧
      (if frame.header.hasPriority then
        priorityBytes frame.exclusive frame.streamDependency frame.weight else []) ++ rest = data := by
  unfold parsePriority at hparse
  split at hparse
  · next hpri =>
    split at hparse
    · cases hparse
    next hlen =>
      cases hparse
      refine ⟨rfl, rfl, ?_⟩
      match data, hlen with
      | b0 :: b1 :: b2 :: b3 :: b4 :: tail, _ =>
        show (if base.header.hasPriority then _ else []) ++ tail = _
        rw [if_pos hpri]
        exact congrArg (· ++ tail) (priorityBytes_word [b0, b1, b2, b3] rfl b4)
      | [], hlen => exact absurd (by decide) hlen
      | [_], hlen => exact absurd (by simp) hlen
      | [_, _], hlen => exact absurd (by simp) hlen
      | [_, _, _], hlen => exact absurd (by simp) hlen
      | [_, _, _, _], hlen => exact absurd (by simp) hlen
  next hpri =>
  cases hparse
  refine ⟨rfl, rfl, ?_⟩
  rw [if_neg hpri]
  rfl

theorem payload_of_parsePayload {frame : Http2HeadersFrame}
    (hparse : parsePayload header data = .ok frame)
    (hclean : CleanPayload data (.headers frame)) :
    frame.header = header ∧ frame.payload = data := by
  unfold parsePayload at hparse
  split at hparse
  · cases hparse
  next padLength data₁ hread =>
    split at hparse
    · cases hparse
    next base data₂ hpri =>
      split at hparse
      · cases hparse
      next block hdrop =>
        cases hparse
        obtain ⟨hhdr, hpadLength, hbytes⟩ := priorityBytes_of_parsePriority hpri
        have hfield := padField_of_readPadLength hread
        simp only at hhdr hpadLength
        refine ⟨hhdr, ?_⟩
        have hsplit : data = (header.padField padLength ++ (if base.header.hasPriority then
            priorityBytes base.exclusive base.streamDependency base.weight else [])) ++ data₂ := by
          rw [append_assoc, hbytes, hfield]
        have hzero := padding_of_dropPadding hdrop fun hp b hb => by
          have hle := le_of_dropPadding hdrop hp
          rw [← drop_suffix _ hle, ← hsplit] at hb
          refine hclean ?_ b ?_
          · rw [hhdr]
            exact hp
          rw [hpadLength]
          exact hb
        show base.header.padField base.padLength ++ _ ++ block ++ base.header.padding base.padLength = _
        rw [hhdr, hpadLength, append_assoc, hzero, hsplit, hhdr]

end Http2HeadersFrame

namespace Http2PriorityFrame

theorem parsePayload_payload (frame : Http2PriorityFrame)
    (hdep : frame.streamDependency.toNat < 2 ^ 31) :
    parsePayload h frame.payload = .ok { frame with header := h } := by
  obtain ⟨word, hlen, hbytes, hexcl, hmask⟩ :=
    priorityBytes_spec frame.exclusive frame.weight hdep
  have hfive : ¬ (word ++ [frame.weight]).length ≠ 5 := by
    rw [length_append, hlen]
    exact not_not.2 rfl
  simp only [parsePayload, payload, hbytes]
  rw [if_neg hfive, take_left' hlen, hexcl, hmask, getD_four hlen]

theorem payload_of_parsePayload {frame : Http2PriorityFrame}
    (hparse : parsePayload header data = .ok frame) :
    frame.header = header ∧ frame.payload = data := by
  unfold parsePayload at hparse
  split at hparse
  · cases hparse
  next hlen =>
    cases hparse
    match data, not_not.1 hlen with
    | [b0, b1, b2, b3, b4], _ => exact ⟨rfl, priorityBytes_word [b0, b1, b2, b3] rfl b4⟩

end Http2PriorityFrame

namespace Http2RstStreamFrame

theorem parsePayload_payload (frame : Http2RstStreamFrame) :
    parsePayload h frame.payload = .ok { frame with header := h } := by
  simp only [parsePayload, payload, length_toBe, ne_eq, not_true_eq_false, if_false,
    ofNat_ofBe_toBe]

theorem payload_of_parsePayload {frame : Http2RstStreamFrame}
    (hparse : parsePayload header data = .ok frame) :
    frame.header = header ∧ frame.payload = data := by
  unfold parsePayload at hparse
  split at hparse
  · cases hparse
  next hlen =>
    cases hparse
    exact ⟨rfl, toBe_toNat_ofBe (not_not.1 hlen)⟩

end Http2RstStreamFrame

namespace Http2SettingsFrame

theorem parseSettings_settingBytes (setting : Http2Setting) (rest : Bytes) :
    parseSettings (settingBytes setting ++ rest) = setting :: parseSettings rest := by
  have hid : UInt16.ofNat (ofBe (toBe 2 setting.id.toNat)) = setting.id := by
    rw [ofBe_toBe setting.id.toNat_lt, UInt16.ofNat_toNat]
  have hval := ofNat_ofBe_toBe setting.value
  show ⟨UInt32.ofNat (ofBe (toBe 4 setting.value.toNat)),
    UInt16.ofNat (ofBe (toBe 2 setting.id.toNat))⟩ :: parseSettings rest = _
  rw [hid, hval]

theorem parseSettings_flatMap (settings : List Http2Setting) :
    parseSettings (settings.flatMap settingBytes) = settings := by
  induction settings with
  | nil => rfl
  | cons setting settings ih => rw [flatMap_cons, parseSettings_settingBytes, ih]

theorem length_flatMap_settingBytes (settings : List Http2Setting) :
    (settings.flatMap settingBytes).length = 6 * settings.length := by
  induction settings with
  | nil => rfl
  | cons setting settings ih =>
  rw [flatMap_cons, length_append, ih, settingBytes, length_append, length_toBe,
    length_toBe, length_cons]
  omega

theorem flatMap_parseSettings (n : Nat) (hlen : data.length = 6 * n) :
    (parseSettings data).flatMap settingBytes = data := by
  induction n generalizing data with
  | zero =>
    rw [eq_nil_of_length_eq_zero hlen]
    rfl
  | succ n ih =>
  match data, hlen with
  | i0 :: i1 :: v0 :: v1 :: v2 :: v3 :: rest, hlen =>
    have hid : toBe 2 (UInt16.ofNat (ofBe [i0, i1])).toNat = [i0, i1] := by
      have hlt : ofBe [i0, i1] < 2 ^ 16 := ofBe_lt [i0, i1]
      rw [UInt16.toNat_ofNat_of_lt' hlt]
      exact toBe_ofBe [i0, i1]
    rw [parseSettings, flatMap_cons, ih (by simp only [length_cons] at hlen; omega),
      settingBytes, hid, toBe_toNat_ofBe rfl]
    rfl

theorem parsePayload_payload (frame : Http2SettingsFrame) (hflags : h.flags = frame.header.flags)
    (hack : frame.header.isAck → frame.settings = []) :
    parsePayload h frame.payload = .ok { frame with header := h } := by
  unfold parsePayload payload
  rw [isAck_congr hflags]
  split
  · next hset => simp [hack hset]
  rw [if_neg (by rw [length_flatMap_settingBytes]; omega), parseSettings_flatMap]

theorem payload_of_parsePayload {frame : Http2SettingsFrame}
    (hparse : parsePayload header data = .ok frame) :
    frame.header = header ∧ frame.payload = data := by
  unfold parsePayload at hparse
  split at hparse
  · next hset =>
    split at hparse
    · cases hparse
    next hlen =>
      cases hparse
      refine ⟨rfl, ?_⟩
      rw [payload, if_pos hset, eq_nil_of_length_eq_zero (not_not.1 hlen)]
  next hset =>
  split at hparse
  · cases hparse
  next hlen =>
    cases hparse
    refine ⟨rfl, ?_⟩
    rw [payload, if_neg hset]
    exact flatMap_parseSettings (data.length / 6) (by omega)

end Http2SettingsFrame

namespace Http2PushPromiseFrame

theorem parsePayload_payload (frame : Http2PushPromiseFrame) (hflags : h.flags = frame.header.flags)
    (hid : frame.promisedStreamId.toNat < 2 ^ 31) :
    parsePayload h frame.payload = .ok ⟨h, frame.promisedStreamId, frame.headerBlock,
      if frame.header.isPadded then frame.padLength else 0⟩ := by
  have h4 : ∀ n, (toBe 4 n).length = 4 := length_toBe 4
  simp only [parsePayload, payload, append_assoc, readPadLength_padField hflags]
  rw [if_neg (by simp), take_left' (h4 _), drop_left' (h4 _), dropPadding_padding hflags,
    ofNat_ofBe_toBe, and_31_of_lt hid, and_31_of_lt hid]

theorem payload_of_parsePayload {frame : Http2PushPromiseFrame}
    (hparse : parsePayload header data = .ok frame)
    (hclean : CleanPayload data (.pushPromise frame)) :
    frame.header = header ∧ frame.payload = data := by
  unfold parsePayload at hparse
  split at hparse
  · cases hparse
  next padLength data₁ hread =>
    split at hparse
    · cases hparse
    next hlen =>
      split at hparse
      · cases hparse
      next block hdrop =>
        cases hparse
        refine ⟨rfl, ?_⟩
        have hfield := padField_of_readPadLength hread
        have htake : (data₁.take 4).length = 4 := by
          rw [length_take]
          omega
        have hsplit : data = (header.padField padLength ++ data₁.take 4) ++ data₁.drop 4 := by
          rw [append_assoc, take_append_drop, hfield]
        have hzero := padding_of_dropPadding hdrop fun hp b hb => by
          have hle := le_of_dropPadding hdrop hp
          rw [← drop_suffix _ hle, ← hsplit] at hb
          exact hclean.1 hp b hb
        -- the reserved bit of the promised id is the top bit of the byte after the pad length
        have htop : (data₁.take 4).getD 0 0 &&& 0x80 = 0 := by
          have hbit := hclean.2
          rw [← hfield, padField] at hbit
          cases data₁ with
          | nil => exact absurd (by decide) hlen
          | cons b data₁ =>
          simp only at hbit
          split at hbit
          · exact hbit
          exact hbit
        show header.padField padLength ++ _ ++ block ++ header.padding padLength = _
        rw [append_assoc, hzero, toBe_and_31_ofBe htake htop, hsplit]

end Http2PushPromiseFrame

namespace Http2PingFrame

theorem parsePayload_payload (frame : Http2PingFrame) :
    parsePayload h frame.payload = .ok { frame with header := h } :=
  dif_pos frame.opaqueData.2

theorem payload_of_parsePayload {frame : Http2PingFrame}
    (hparse : parsePayload header data = .ok frame) :
    frame.header = header ∧ frame.payload = data := by
  unfold parsePayload at hparse
  split at hparse
  · cases hparse
    exact ⟨rfl, rfl⟩
  cases hparse

end Http2PingFrame

namespace Http2GoAwayFrame

theorem parsePayload_payload (frame : Http2GoAwayFrame) (hid : frame.lastStreamId.toNat < 2 ^ 31) :
    parsePayload h frame.payload = .ok { frame with header := h } := by
  have h4 : ∀ n, (toBe 4 n).length = 4 := length_toBe 4
  simp only [parsePayload, payload, append_assoc]
  have hdrop : ∀ n m, (toBe 4 n ++ (toBe 4 m ++ frame.debugData)).drop 8 = frame.debugData := by
    intro n m
    rw [← append_assoc, drop_left' (by simp)]
  rw [if_neg (by simp only [length_append, length_toBe]; omega), take_left' (h4 _),
    drop_left' (h4 _), take_left' (h4 _), hdrop, ofNat_ofBe_toBe, ofNat_ofBe_toBe, and_31_of_lt hid, and_31_of_lt hid]

theorem payload_of_parsePayload {frame : Http2GoAwayFrame}
    (hparse : parsePayload header data = .ok frame)
    (hclean : CleanPayload data (.goAway frame)) :
    frame.header = header ∧ frame.payload = data := by
  unfold parsePayload at hparse
  split at hparse
  · cases hparse
  next hlen =>
    cases hparse
    refine ⟨rfl, ?_⟩
    have htake : (data.take 4).length = 4 := by
      rw [length_take]
      omega
    have htake' : ((data.drop 4).take 4).length = 4 := by
      rw [length_take, length_drop]
      omega
    have htop : (data.take 4).getD 0 0 &&& 0x80 = 0 := by
      cases data with
      | nil => exact hclean
      | cons b data => exact hclean
    have hrest : data.drop 8 = (data.drop 4).drop 4 := by rw [drop_drop]
    show toBe 4 _ ++ toBe 4 _ ++ data.drop 8 = data
    rw [toBe_and_31_ofBe htake htop, toBe_toNat_ofBe htake', append_assoc, hrest,
      take_append_drop, take_append_drop]

end Http2GoAwayFrame

namespace Http2WindowUpdateFrame

theorem parsePayload_payload (frame : Http2WindowUpdateFrame)
    (hpos : 0 < frame.windowSizeIncrement.toNat) (hlt : frame.windowSizeIncrement.toNat < 2 ^ 31) :
    parsePayload h frame.payload = .ok { frame with header := h } := by
  have hne : frame.windowSizeIncrement ≠ 0 := fun hzero => by
    rw [hzero] at hpos
    exact Nat.lt_irrefl 0 hpos
  simp only [parsePayload, payload, length_toBe, ne_eq, not_true_eq_false, if_false,
    ofNat_ofBe_toBe, and_31_of_lt hlt]
  rw [if_neg hne]

theorem payload_of_parsePayload {frame : Http2WindowUpdateFrame}
    (hparse : parsePayload header data = .ok frame)
    (hclean : CleanPayload data (.windowUpdate frame)) :
    frame.header = header ∧ frame.payload = data := by
  unfold parsePayload at hparse
  split at hparse
  · cases hparse
  next hlen =>
    simp only at hparse
    split at hparse
    · cases hparse
    cases hparse
    exact ⟨rfl, toBe_and_31_ofBe (not_not.1 hlen) hclean⟩

end Http2WindowUpdateFrame

end Classes

/-! ## The codec -/

namespace Http2FrameCodec
open Http2Frame Http2FrameHeader

theorem decode_frameBytes {header : Http2FrameHeader} {payload : Bytes}
    (htype : .ofByte header.type.toByte = header.type) (hid : header.streamId.toNat < 2 ^ 31)
    (hlen : payload.length < 2 ^ 24) (rest : Bytes) :
    decode (header.frameBytes payload ++ rest) = Http2FrameParser.parsePayload
      { header with length := UInt32.ofNat payload.length } payload := by
  have hlength : (UInt32.ofNat payload.length).toNat = payload.length :=
    UInt32.toNat_ofNat_of_lt' (Nat.lt_trans hlen (by decide))
  have hhdr := deserialize_serialize { header with length := UInt32.ofNat payload.length }
    (by rw [hlength]; exact hlen) hid htype (payload ++ rest)
  have h9 : (serialize { header with length := UInt32.ofNat payload.length }).length = 9 :=
    length_serialize _
  simp only [decode, Http2FrameParser.parseFrame, frameBytes, append_assoc, hhdr, hlength,
    kHttp2FrameHeaderLength, length_append, h9]
  rw [if_neg (by omega), if_neg (by omega), drop_left' h9, take_left]

theorem exists_of_map_ok {α β : Type} {x : Except Http2ErrorCode α} {f : α → β} {y : β}
    (h : x.map f = .ok y) : ∃ a, x = .ok a ∧ f a = y := by
  cases x with
  | error err => cases h
  | ok a => exact ⟨a, rfl, Except.ok.inj h⟩

variable {frame : Http2Frame}

theorem encode_eq_frameBytes
    (hid : frame.kind ∈ [.Settings, .Ping, .GoAway] → frame.header.streamId = 0) :
    encode frame = frame.header.frameBytes frame.payload := by
  have hzero : ∀ h : Http2FrameHeader, h.streamId = 0 → { h with streamId := 0 } = h := by
    intro h heq
    rw [← heq]
  cases frame with
  | settings f => exact congrArg (frameBytes · f.payload) (hzero f.header (hid (by simp [kind])))
  | ping f => exact congrArg (frameBytes · f.payload) (hzero f.header (hid (by simp [kind])))
  | goAway f => exact congrArg (frameBytes · f.payload) (hzero f.header (hid (by simp [kind])))
  | _ => rfl

theorem payload_of_parsePayload {header : Http2FrameHeader} {data : Bytes}
    (hparse : Http2FrameParser.parsePayload header data = .ok frame)
    (hclean : CleanPayload data frame) : frame.header = header ∧ frame.payload = data := by
  unfold Http2FrameParser.parsePayload at hparse
  split at hparse
  · obtain ⟨f, hf, rfl⟩ := exists_of_map_ok hparse
    exact Http2DataFrame.payload_of_parsePayload hf hclean
  · obtain ⟨f, hf, rfl⟩ := exists_of_map_ok hparse
    exact Http2HeadersFrame.payload_of_parsePayload hf hclean
  · obtain ⟨f, hf, rfl⟩ := exists_of_map_ok hparse
    exact Http2PriorityFrame.payload_of_parsePayload hf
  · obtain ⟨f, hf, rfl⟩ := exists_of_map_ok hparse
    exact Http2RstStreamFrame.payload_of_parsePayload hf
  · obtain ⟨f, hf, rfl⟩ := exists_of_map_ok hparse
    exact Http2SettingsFrame.payload_of_parsePayload hf
  · obtain ⟨f, hf, rfl⟩ := exists_of_map_ok hparse
    exact Http2PushPromiseFrame.payload_of_parsePayload hf hclean
  · obtain ⟨f, hf, rfl⟩ := exists_of_map_ok hparse
    exact Http2PingFrame.payload_of_parsePayload hf
  · obtain ⟨f, hf, rfl⟩ := exists_of_map_ok hparse
    exact Http2GoAwayFrame.payload_of_parsePayload hf hclean
  · obtain ⟨f, hf, rfl⟩ := exists_of_map_ok hparse
    exact Http2WindowUpdateFrame.payload_of_parsePayload hf hclean
  · obtain ⟨f, hf, rfl⟩ := exists_of_map_ok hparse
    cases hf
    exact ⟨rfl, rfl⟩
  cases hparse

theorem parsePayload_payload (H : frame.InRange)
    (htype : h.type = frame.kind) (hflags : h.flags = frame.header.flags) :
    ∃ g, Http2FrameParser.parsePayload h frame.payload = .ok g ∧ g.header = h ∧
      SameFields frame g := by
  have hfields := H.fields
  unfold Http2FrameParser.parsePayload
  rw [htype]
  cases frame with
  | data f =>
    have hparse := Http2DataFrame.parsePayload_payload f hflags
    exact ⟨.data _, congrArg (Except.map Http2Frame.data) hparse, rfl, rfl, fun hpad => if_pos hpad⟩
  | headers f =>
    obtain ⟨g, hparse, hhdr, hsame⟩ := Http2HeadersFrame.parsePayload_payload f hflags hfields
    exact ⟨.headers g, congrArg (Except.map Http2Frame.headers) hparse, hhdr, hsame⟩
  | priority f =>
    have hparse := Http2PriorityFrame.parsePayload_payload (h := h) f hfields
    exact ⟨.priority _, congrArg (Except.map Http2Frame.priority) hparse, rfl, rfl, rfl, rfl⟩
  | rstStream f =>
    have hparse := Http2RstStreamFrame.parsePayload_payload (h := h) f
    exact ⟨.rstStream _, congrArg (Except.map Http2Frame.rstStream) hparse, rfl, rfl⟩
  | settings f =>
    have hparse := Http2SettingsFrame.parsePayload_payload f hflags hfields.2
    exact ⟨.settings _, congrArg (Except.map Http2Frame.settings) hparse, rfl, rfl⟩
  | pushPromise f =>
    have hparse := Http2PushPromiseFrame.parsePayload_payload f hflags hfields
    exact ⟨.pushPromise _, congrArg (Except.map Http2Frame.pushPromise) hparse, rfl, rfl, rfl,
      fun hpad => if_pos hpad⟩
  | ping f =>
    have hparse := Http2PingFrame.parsePayload_payload (h := h) f
    exact ⟨.ping _, congrArg (Except.map Http2Frame.ping) hparse, rfl, rfl⟩
  | goAway f =>
    have hparse := Http2GoAwayFrame.parsePayload_payload (h := h) f hfields.2
    exact ⟨.goAway _, congrArg (Except.map Http2Frame.goAway) hparse, rfl, rfl, rfl, rfl⟩
  | windowUpdate f =>
    have hparse := Http2WindowUpdateFrame.parsePayload_payload (h := h) f hfields.1 hfields.2
    exact ⟨.windowUpdate _, congrArg (Except.map Http2Frame.windowUpdate) hparse, rfl, rfl⟩
  | continuation f => exact ⟨.continuation ⟨h, f.headerBlock⟩, rfl, rfl, rfl⟩

theorem streamId_of_inRange (H : frame.InRange) (hkind : frame.kind ∈ [.Settings, .Ping, .GoAway]) :
    frame.header.streamId = 0 := by
  have hfields := H.fields
  cases frame with
  | settings f => exact hfields.1
  | ping f => exact hfields
  | goAway f => exact hfields.1
  | _ => simp [kind] at hkind

/-- A frame in range is decoded to a frame of the same fields, with the length of its payload in
the header; and clean bytes that are accepted are the encoding of what they decode to. -/
theorem round_trip :
    (∀ frame : Http2Frame, frame.InRange → ∃ g, decode (encode frame) = .ok g ∧
      g.header = { frame.header with length := UInt32.ofNat frame.payload.length } ∧
      SameFields frame g) ∧
    (∀ (bytes : Bytes) (frame : Http2Frame), decode bytes = .ok frame → Clean bytes frame →
      encode frame = bytes.take (kHttp2FrameHeaderLength + frame.header.length.toNat)) := by
  refine ⟨fun frame H => ?_, fun bytes frame hdecode H => ?_⟩
  · have htype : .ofByte frame.header.type.toByte = frame.header.type := by
      rw [H.type_eq]
      cases frame <;> rfl
    rw [encode_eq_frameBytes (streamId_of_inRange H), ← append_nil (frameBytes _ _),
      decode_frameBytes htype H.streamId_lt H.payload_lt]
    exact parsePayload_payload H H.type_eq rfl
  unfold decode Http2FrameParser.parseFrame at hdecode
  split at hdecode
  · cases hdecode
  next hlen =>
    simp only at hdecode
    split at hdecode
    · cases hdecode
    next hlength =>
      simp only [kHttp2FrameHeaderLength] at hlen hlength hdecode ⊢
      obtain ⟨hhdr, hpay⟩ := payload_of_parsePayload hdecode H.payload
      have hsize : frame.payload.length = (deserialize bytes).length.toNat := by
        rw [hpay, length_take, length_drop]
        omega
      rw [encode_eq_frameBytes H.connection, frameBytes, hsize, UInt32.ofNat_toNat, hhdr,
        serialize_deserialize (by omega) H.streamId, hpay, take_add]

/-- A padded HEADERS frame with a priority. -/
def sampleFrame : Http2Frame := .headers {
  header := { length := 10, type := .Headers, flags := 0x2C, streamId := 5 }
  streamDependency := 3
  exclusive := true
  weight := 7
  headerBlock := [0x82, 0x84]
  padLength := 2 }

theorem round_trip_sample :
    (∃ g, decode (encode sampleFrame) = .ok g ∧ SameFields sampleFrame g) ∧
    encode sampleFrame =
      [0, 0, 10, 1, 0x2C, 0, 0, 0, 5, 2, 0x80, 0, 0, 3, 7, 0x82, 0x84, 0, 0] := by
  refine ⟨?_, ?_⟩
  · obtain ⟨g, hdecode, -, hsame⟩ :=
      round_trip.1 sampleFrame ⟨rfl, by decide, by decide, show (3 : UInt32).toNat < _ by decide⟩
    exact ⟨g, hdecode, hsame⟩
  refine round_trip.2
    [0, 0, 10, 1, 0x2C, 0, 0, 0, 5, 2, 0x80, 0, 0, 3, 7, 0x82, 0x84, 0, 0] sampleFrame rfl
    ⟨by decide, fun _ => ?_, by decide⟩
  intro b hb
  replace hb : b ∈ List.replicate 2 0 := hb
  exact eq_of_mem_replicate hb

end Http2FrameCodec

end Galay.Http2
