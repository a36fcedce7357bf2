import Galay.Mongo.BsonRoundTrip

/-!
# OP_MSG

The messages of `mongo_protocol.cc`: a header of four words, the flags, and sections up to the
length that the header tells. The encoder writes one section, the body, and its length last. With
the flag for a checksum the decoder takes the last four bytes for one. The encoder writes none: a
caller that sets the flag has to add it and to correct the length.
-/

namespace Galay.Mongo

open List

def kMongoOpCompressed : Int32 := 2012

def kMongoOpMsg : Int32 := 2013

def kChecksumPresentFlag : Int32 := 0x01

structure MongoMessageHeader where
  messageLength : Int32
  requestId : Int32
  responseTo : Int32
  opCode : Int32
  deriving DecidableEq

structure MongoMessage where
  header : MongoMessageHeader
  body : MongoDocument
  flags : Int32

inductive MongoErrorType
  | protocol | unsupported
  deriving DecidableEq

structure MongoError where
  type : MongoErrorType
  message : String
  deriving DecidableEq

/-! ## The checksum -/

def kCastagnoliReflectedPolynomial : UInt32 := 0x82F63B78

def crc32cBit (crc : UInt32) : UInt32 :=
  (crc >>> 1) ^^^ (kCastagnoliReflectedPolynomial &&& (0 - (crc &&& 1)))

/-- An entry of `kCrc32cTable`. -/
def crc32cEntry (i : UInt32) : UInt32 := Nat.repeat crc32cBit 8 i

def crc32c (data : Bytes) : UInt32 :=
  ~~~ data.foldl (fun crc byte =>
    (crc >>> 8) ^^^ crc32cEntry ((crc ^^^ byte.toUInt32) &&& 0xFF)) 0xFFFFFFFF

/-! ## The encoder -/

/-- The header, once the message is there. -/
def writeHeader (base : Nat) (requestId : Int32) (out : Bytes) : Bytes :=
  let out' := writeInt32LEAt out base (Int32.ofNat (out.length - base))
  let out' := writeInt32LEAt out' (base + 4) requestId
  let out' := writeInt32LEAt out' (base + 8) 0
  writeInt32LEAt out' (base + 12) kMongoOpMsg

/-- What both encoders do around the body. -/
def appendBody (out : Bytes) (requestId flags : Int32) (append : Bytes → Appended) : Appended :=
  let base := out.length
  match append (writeInt32LE (out ++ replicate 16 0) flags ++ [0]) with
  | (out, .error error) => (out.take base, .error error)
  | (out, .ok ()) => (writeHeader base requestId out, .ok ())

def appendOpMsg (out : Bytes) (requestId : Int32) (body : MongoDocument) (flags : Int32) :
    Appended :=
  appendBody out requestId flags (appendDocument · body)

def appendOpMsgWithDatabase (out : Bytes) (requestId : Int32) (body : MongoDocument)
    (database : Bytes) (flags : Int32) : Appended :=
  appendBody out requestId flags (appendDocumentWithDatabase · body database)

/-! ## The decoder -/

variable (data : Bytes)

def readUint32LE (pos : Nat) : UInt32 :=
  UInt32.ofNat (Lib.ofLe ((data.drop pos).take 4))

def readInt32LE (pos : Nat) : Int32 := (readUint32LE data pos).toInt32

/-- The loop over the bytes of the sections: the last body among them. -/
def decodeSections (body : Option MongoDocument) :
    Bytes → Except MongoError (Option MongoDocument)
  | [] => .ok body
  | sectionKind :: data =>
    if sectionKind = 0 then
      match decodeDocument data with
      | .error error => .error ⟨.protocol, "Failed to decode OP_MSG body: " ++ error⟩
      | .ok (document, consumed) => decodeSections (some document) (data.drop consumed)
    else if sectionKind = 1 then
      if data.length < 4 then
        .error ⟨.protocol, "Invalid OP_MSG section(1) header"⟩
      else
        let sectionSize := readInt32LE data 0
        if sectionSize ≤ 4 then
          .error ⟨.protocol, "Invalid OP_MSG section(1) size"⟩
        else if data.length < sectionSize.toNatClampNeg then
          .error ⟨.protocol, "Incomplete OP_MSG section(1)"⟩
        else
          decodeSections body (data.drop sectionSize.toNatClampNeg)
    else
      .error ⟨.protocol, "Unknown OP_MSG section kind: " ++ toString sectionKind.toNat⟩
termination_by data => data.length
decreasing_by all_goals
  rw [length_drop, length_cons]
  omega

/-- The checksum of a message of which it takes the last four bytes. -/
def verifyChecksum (messageSize : Nat) : Except MongoError Unit :=
  if messageSize < 25 then
    .error ⟨.protocol, "OP_MSG checksum missing"⟩
  else if crc32c (data.take (messageSize - 4)) ≠ readUint32LE data (messageSize - 4) then
    .error ⟨.protocol, "OP_MSG checksum mismatch"⟩
  else
    .ok ()

def decodeMessage : Except MongoError MongoMessage :=
  if data.length < 16 then
    .error ⟨.protocol, "Mongo message too short"⟩
  else
    let header : MongoMessageHeader :=
      ⟨readInt32LE data 0, readInt32LE data 4, readInt32LE data 8, readInt32LE data 12⟩
    let messageSize := header.messageLength.toNatClampNeg
    if header.messageLength < 21 then
      .error ⟨.protocol, "Invalid Mongo message length"⟩
    else if messageSize > data.length then
      .error ⟨.protocol, "Incomplete Mongo message"⟩
    else if header.opCode = kMongoOpCompressed then
      .error ⟨.unsupported, "OP_COMPRESSED is not supported"⟩
    else if header.opCode ≠ kMongoOpMsg then
      .error ⟨.protocol, "Unsupported Mongo opCode: " ++ toString header.opCode.toInt⟩
    else
      let flags := readInt32LE data 16
      let checksumPresent := flags &&& kChecksumPresentFlag ≠ 0
      match if checksumPresent then verifyChecksum data messageSize else .ok () with
      | .error error => .error error
      | .ok () =>
        let parseableEnd := if checksumPresent then messageSize - 4 else messageSize
        match decodeSections none ((data.take parseableEnd).drop 20) with
        | .error error => .error error
        | .ok none => .error ⟨.protocol, "OP_MSG body(section 0) missing"⟩
        | .ok (some body) => .ok ⟨header, body, flags⟩

/-- The message at the front of a string, and `consumed` as it is left. -/
def extractMessage (consumed : Nat) : Except MongoError MongoMessage × Nat :=
  if data.length < 4 then
    (.error ⟨.protocol, "Mongo message header incomplete"⟩, consumed)
  else
    let messageLength := readInt32LE data 0
    if messageLength < 16 then
      (.error ⟨.protocol, "Invalid Mongo message length"⟩, consumed)
    else if messageLength.toNatClampNeg > data.length then
      (.error ⟨.protocol, "Incomplete Mongo message"⟩, consumed)
    else
      (decodeMessage (data.take messageLength.toNatClampNeg), messageLength.toNatClampNeg)

variable {data}

/-! ## What the encoder writes -/

/-- A message with one section, the body. -/
def messageWire (requestId flags : Int32) (document : Bytes) : Bytes :=
  Lib.toLe 4 (21 + document.length) ++ Lib.toLe 4 requestId.toUInt32.toNat ++
    Lib.toLe 4 (0 : Int32).toUInt32.toNat ++ Lib.toLe 4 kMongoOpMsg.toUInt32.toNat ++
    Lib.toLe 4 flags.toUInt32.toNat ++ [0] ++ document

theorem length_messageWire (requestId flags : Int32) (document : Bytes) :
    (messageWire requestId flags document).length = 21 + document.length := by
  simp only [messageWire, length_append, Lib.length_toLe, length_singleton]

/-- Four bytes are written over. -/
theorem writeInt32LEAt_append (hpos : pos = before.length)
    (after : Bytes) (value : Int32) :
    writeInt32LEAt (before ++ (replicate 4 0 ++ after)) pos value =
      before ++ Lib.toLe 4 value.toUInt32.toNat ++ after := by
  rw [writeInt32LEAt, hpos, take_left, ← drop_drop, drop_left, drop_left' length_replicate]

theorem writeHeader_append (out : Bytes) (requestId flags : Int32) (document : Bytes) :
    writeHeader out.length requestId
      (writeInt32LE (out ++ replicate 16 0) flags ++ [0] ++ document) =
        out ++ messageWire requestId flags document := by
  have hlen : (writeInt32LE (out ++ replicate 16 0) flags ++ [0] ++ document).length -
      out.length = 21 + document.length := by
    simp only [writeInt32LE, length_append, length_replicate, Lib.length_toLe, length_singleton]
    omega
  have hzeros : replicate 16 (0 : UInt8) =
      replicate 4 0 ++ (replicate 4 0 ++ (replicate 4 0 ++ replicate 4 0)) := rfl
  simp only [writeHeader, hlen]
  rw [writeInt32LE, hzeros]
  simp only [append_assoc]
  rw [writeInt32LEAt_append rfl, writeInt32LEAt_append (by simp), writeInt32LEAt_append (by simp),
    writeInt32LEAt_append (by simp), toLe_ofNat, messageWire]
  simp only [append_assoc]

/-- The encoder puts a message around the body that it is given. -/
theorem appendBody_ok {append : Bytes → Appended}
    (happend : ∀ out, append out = (out ++ document, .ok ())) (out : Bytes)
    (requestId flags : Int32) : appendBody out requestId flags append =
      (out ++ messageWire requestId flags document, .ok ()) := by
  simp only [appendBody, happend, writeHeader_append]

/-- A body that is encoded once is encoded behind anything. -/
theorem appendDocument_ok (hok : (appendDocument [] document).2 = .ok ()) :
    (∀ key ∈ documentKeys document, 0 ∉ key) ∧
      ∀ out, appendDocument out document = (out ++ framed (fieldsWire document), .ok ()) := by
  have hkeys : ∀ key ∈ documentKeys document, 0 ∉ key := by
    rcases appendDocument_cases [] document with ⟨hkeys, _⟩ | ⟨_, error, heq⟩
    · exact hkeys
    rw [heq] at hok
    cases hok
  refine ⟨hkeys, fun out => ?_⟩
  rcases appendDocument_cases out document with ⟨_, heq⟩ | ⟨⟨key, hmem, hnul⟩, _⟩
  · exact heq
  exact absurd hnul (hkeys key hmem)

/-! ## What the decoder makes of it -/

theorem readInt32LE_value
    (h : data.drop pos = Lib.toLe 4 value.toUInt32.toNat ++ rest) :
    readInt32LE data pos = value := by
  have htake := Lib.take_of_drop h
  rw [Lib.length_toLe] at htake
  rw [readInt32LE, readUint32LE, htake, Lib.ofLe_toLe value.toUInt32.toNat_lt, UInt32.ofNat_toNat,
    Int32.toInt32_toUInt32]

section Message

variable {requestId flags : Int32} {document after : Bytes}

/-- The words in front of a message, and what stands behind them. -/
theorem messageWire_words (hdata : data = messageWire requestId flags document ++ after) :
    readInt32LE data 0 = Int32.ofNat (21 + document.length) ∧ readInt32LE data 4 = requestId ∧
      readInt32LE data 8 = 0 ∧ readInt32LE data 12 = kMongoOpMsg ∧
      readInt32LE data 16 = flags ∧ data.drop 20 = 0 :: (document ++ after) := by
  rw [messageWire, ← toLe_ofNat (21 + document.length)] at hdata
  simp only [append_assoc] at hdata
  rw [← drop_zero (l := data)] at hdata
  have hrequest := Lib.drop_of_drop hdata
  rw [Lib.length_toLe] at hrequest
  have hresponse := Lib.drop_of_drop hrequest
  rw [Lib.length_toLe] at hresponse
  have hop := Lib.drop_of_drop hresponse
  rw [Lib.length_toLe] at hop
  have hflags := Lib.drop_of_drop hop
  rw [Lib.length_toLe] at hflags
  have hsections := Lib.drop_of_drop hflags
  rw [Lib.length_toLe] at hsections
  exact ⟨readInt32LE_value hdata, readInt32LE_value hrequest, readInt32LE_value hresponse,
    readInt32LE_value hop, readInt32LE_value hflags, hsections⟩

variable (hsize : 21 + document.length < 2 ^ 31)
include hsize

theorem not_length_lt {n : Int32} (hn : n.toInt ≤ 21) :
    ¬ Int32.ofNat (21 + document.length) < n := by
  rw [Int32.lt_iff_toInt_lt, Int32.toInt_ofNat_of_lt hsize]
  omega

/-- The header is right, so `decodeMessage` goes on to the flags. -/
theorem decodeMessage_messageWire (hlong : 4 ≤ document.length) :
    decodeMessage (messageWire requestId flags document) =
      match if flags &&& kChecksumPresentFlag ≠ 0 then
          verifyChecksum (messageWire requestId flags document) (21 + document.length)
        else .ok () with
      | .error error => .error error
      | .ok () =>
        match decodeSections none (0 :: document.take (document.length -
          if flags &&& kChecksumPresentFlag ≠ 0 then 4 else 0)) with
        | .error error => .error error
        | .ok none => .error ⟨.protocol, "OP_MSG body(section 0) missing"⟩
        | .ok (some body) =>
          .ok ⟨⟨Int32.ofNat (21 + document.length), requestId, 0, kMongoOpMsg⟩, body, flags⟩ := by
  obtain ⟨hlen, hrequest, hresponse, hop, hflags, hsections⟩ :=
    messageWire_words (append_nil (messageWire requestId flags document)).symm
  have hmsg := length_messageWire requestId flags document
  have hsupported : kMongoOpMsg ≠ kMongoOpCompressed := by decide
  have hend (n : Nat) (hn : n ≤ 4) :
      ((messageWire requestId flags document).take (21 + document.length - n)).drop 20 =
        0 :: document.take (document.length - n) := by
    have hcut : 21 + document.length - n - 20 = document.length - n + 1 := by omega
    rw [drop_take, hsections, append_nil, hcut, take_succ_cons]
  have hcut : (if flags &&& kChecksumPresentFlag ≠ 0 then 21 + document.length - 4
      else 21 + document.length) =
        21 + document.length - if flags &&& kChecksumPresentFlag ≠ 0 then 4 else 0 := by
    split <;> rfl
  rw [decodeMessage, if_neg (by omega)]
  simp only [hlen, hrequest, hresponse, hop, hflags, toNat_ofNat_length hsize]
  rw [if_neg (not_length_lt hsize (by decide)), if_neg (by omega), if_neg hsupported,
    if_neg (not_not_intro rfl), hcut, hend _ (by split <;> omega)]

/-- The bytes of the message are told apart from what follows. -/
theorem extractMessage_messageWire (trailing : Bytes) (consumed : Nat) :
    extractMessage (messageWire requestId flags document ++ trailing) consumed =
      (decodeMessage (messageWire requestId flags document), 21 + document.length) := by
  have hlen := (messageWire_words (rfl : messageWire requestId flags document ++ trailing = _)).1
  have hmsg := length_messageWire requestId flags document
  rw [extractMessage, if_neg (by rw [length_append]; omega)]
  simp only [hlen, toNat_ofNat_length hsize]
  rw [if_neg (not_length_lt hsize (by decide)), if_neg (by rw [length_append]; omega),
    take_left' hmsg]

theorem extractMessage_cut (hp : p <+: messageWire requestId flags document)
    (hne : p ≠ messageWire requestId flags document) (consumed : Nat) :
    ∃ error, extractMessage p consumed = (.error error, consumed) := by
  obtain ⟨hlen, -⟩ :=
    messageWire_words (append_nil (messageWire requestId flags document)).symm
  have hmsg := length_messageWire requestId flags document
  have hless : p.length < 21 + document.length := by
    rw [← hmsg]
    exact lt_of_le_of_ne hp.length_le fun heq => hne (hp.eq_of_length heq)
  rw [extractMessage]
  split
  · exact ⟨_, rfl⟩
  obtain ⟨rest, hrest⟩ := hp
  have hword : readInt32LE p 0 = Int32.ofNat (21 + document.length) := by
    rw [← hlen, ← hrest]
    rw [readInt32LE, readInt32LE, readUint32LE, readUint32LE, drop_zero, drop_zero,
      take_append_of_le_length (by omega)]
  simp only [hword, toNat_ofNat_length hsize]
  rw [if_neg (not_length_lt hsize (by decide)), if_pos hless]
  exact ⟨_, rfl⟩

end Message

theorem decodeDocument_cut (hsize : (framed body).length < 2 ^ 31)
    (hn : n < (framed body).length) :
    ∃ error, decodeDocument ((framed body).take n) = .error error := by
  have hlong := length_framed body
  have htake : ((framed body).take n).length = n := by rw [length_take]; omega
  rw [decodeDocument]
  split
  · exact ⟨_, rfl⟩
  have hread : readInt32 ((framed body).take n) 0 = .ok (Int32.ofNat (framed body).length) := by
    have hfour : ∃ m, n = (Lib.toLe 4 (framed body).length).length + m :=
      ⟨n - 4, by rw [Lib.length_toLe]; omega⟩
    obtain ⟨m, rfl⟩ := hfour
    apply readInt32_length
    rw [drop_zero, hlong, framed, append_assoc, take_length_add_append]
  have hfive : ¬ Int32.ofNat (framed body).length < 5 := by
    rw [Int32.lt_iff_toInt_lt, Int32.toInt_ofNat_of_lt hsize]
    show ¬ (_ < (5 : Int))
    omega
  simp only [hread]
  rw [if_neg hfive, toNat_ofNat_length hsize, if_pos (by omega)]
  exact ⟨_, rfl⟩

section Body

variable {flags : Int32} {body : MongoDocument} (hsize : 21 + (framed (fieldsWire body)).length < 2 ^ 31)
include hsize

/-- Without the flag for a checksum the body is the rest of the message. -/
theorem decodeMessage_body (hkeys : ∀ key ∈ documentKeys body, 0 ∉ key)
    (hflag : flags &&& kChecksumPresentFlag = 0) :
    decodeMessage (messageWire requestId flags (framed (fieldsWire body))) =
      .ok ⟨⟨Int32.ofNat (21 + (framed (fieldsWire body)).length), requestId, 0, kMongoOpMsg⟩,
        lowerFields body, flags⟩ := by
  have hlong := length_framed (fieldsWire body)
  have hdecode := decodeDocument_framed (fun field _ => decodeElementValue_wire field.2) hkeys
    (by omega) []
  rw [append_nil] at hdecode
  rw [decodeMessage_messageWire hsize (by omega)]
  simp only [hflag, ne_eq, not_true_eq_false, if_false, Nat.sub_zero, take_length]
  rw [decodeSections, if_pos rfl]
  simp only [hdecode, drop_length]
  rw [decodeSections]

/-- With the flag the body ends behind the sections, whatever the last four bytes are. -/
theorem decodeMessage_checksum (requestId : Int32) (hflag : flags &&& kChecksumPresentFlag ≠ 0) :
    ∃ error, decodeMessage (messageWire requestId flags (framed (fieldsWire body))) =
      .error error := by
  have hlong := length_framed (fieldsWire body)
  have hsmall : (framed (fieldsWire body)).length < 2 ^ 31 := by omega
  have hcut : (framed (fieldsWire body)).length - 4 < (framed (fieldsWire body)).length := by omega
  obtain ⟨error, hdecode⟩ := decodeDocument_cut hsmall hcut
  rw [decodeMessage_messageWire hsize (by omega)]
  simp only [if_pos hflag]
  split
  · exact ⟨_, rfl⟩
  rw [decodeSections, if_pos rfl]
  simp only [hdecode]
  exact ⟨_, rfl⟩

end Body

/-- What the encoder appends to any string for a body that takes `size` bytes, and what becomes of
it at the decoder. The object ids of the body come back in lower case. -/
def Extracted (append : Bytes → Appended) (requestId flags : Int32) (body : MongoDocument)
    (size : Nat) : Prop :=
  ∀ out, ∃ message, append out = (out ++ message, .ok ()) ∧ message.length = 21 + size ∧
    (flags &&& kChecksumPresentFlag = 0 → ∀ trailing consumed,
      extractMessage (message ++ trailing) consumed =
        (.ok ⟨⟨Int32.ofNat message.length, requestId, 0, kMongoOpMsg⟩, lowerFields body, flags⟩,
          message.length)) ∧
    (flags &&& kChecksumPresentFlag ≠ 0 → ∀ trailing consumed,
      ∃ error, extractMessage (message ++ trailing) consumed = (.error error, message.length)) ∧
    ∀ front, front <+: message → front ≠ message → ∀ consumed,
      ∃ error, extractMessage front consumed = (.error error, consumed)

theorem extracted {append : Bytes → Appended}
    (happend : ∀ out, append out = appendDocument out body) (hok : append [] = (encoded, .ok ()))
    (hsize : 21 + encoded.length < 2 ^ 31) (requestId flags : Int32) :
    Extracted (appendBody · requestId flags append) requestId flags body encoded.length := by
  rw [happend] at hok
  obtain ⟨hkeys, hwrite⟩ := appendDocument_ok (congrArg Prod.snd hok)
  have hencoded : framed (fieldsWire body) = encoded := by
    rw [hwrite, nil_append] at hok
    exact congrArg Prod.fst hok
  subst hencoded
  intro out
  refine ⟨messageWire requestId flags (framed (fieldsWire body)),
    appendBody_ok (fun out => (happend out).trans (hwrite out)) out requestId flags,
    length_messageWire .., fun hflag trailing consumed => ?_, fun hflag trailing consumed => ?_,
    fun front hfront hne consumed => extractMessage_cut hsize hfront hne consumed⟩
  · rw [extractMessage_messageWire hsize, decodeMessage_body hsize hkeys hflag, length_messageWire]
  obtain ⟨error, herr⟩ := decodeMessage_checksum hsize requestId hflag
  exact ⟨error, by rw [extractMessage_messageWire hsize, herr, length_messageWire]⟩

/-- A message is read back, and what follows it is left alone, unless its flags announce the
checksum that is not there. -/
theorem appendOpMsg_extractMessage (requestId flags : Int32) (body : MongoDocument)
    (database encoded : Bytes) (hsize : 21 + encoded.length < 2 ^ 31) :
    (appendDocument [] body = (encoded, .ok ()) →
      Extracted (appendOpMsg · requestId body flags) requestId flags body encoded.length) ∧
    (appendDocumentWithDatabase [] body database = (encoded, .ok ()) →
      Extracted (appendOpMsgWithDatabase · requestId body database flags) requestId flags
        (withDatabase body database) encoded.length) :=
  ⟨fun hok => extracted (fun _ => rfl) hok hsize requestId flags,
    fun hok => extracted (appendDocumentWithDatabase_eq · body database) hok hsize requestId flags⟩

theorem appendOpMsg_extractMessage_empty :
    Extracted (appendOpMsg · 7 [] 2) 7 2 [] 5 ∧
    Extracted (appendOpMsgWithDatabase · 7 [] (ascii "db") 2) 7 2
      (withDatabase [] (ascii "db")) 17 :=
  ⟨(appendOpMsg_extractMessage 7 2 [] (ascii "db") _ (by decide)).1 rfl,
    (appendOpMsg_extractMessage 7 2 [] (ascii "db") _ (by decide)).2 rfl⟩

/-- The empty document with the flag for a checksum. -/
theorem appendOpMsg_checksum_lost : ∃ message, appendOpMsg [] 7 [] 1 = (message, .ok ()) ∧
    ∀ trailing consumed read, (extractMessage (message ++ trailing) consumed).1 ≠ .ok read := by
  have hsize : 21 + (framed (fieldsWire [])).length < 2 ^ 31 := by decide
  have hflag : (1 : Int32) &&& kChecksumPresentFlag ≠ 0 := by decide
  obtain ⟨error, herr⟩ := decodeMessage_checksum hsize 7 hflag
  refine ⟨messageWire 7 1 (framed (fieldsWire [])), rfl, fun trailing consumed read heq => ?_⟩
  rw [extractMessage_messageWire hsize, herr] at heq
  cases heq

end Galay.Mongo
