import Galay.Lib.FromChars
import Galay.Utils.Base64

/-!
# SCRAM-SHA-256 (`postgres_auth.cc`)

The client's side of the exchange. The cryptographic functions are arbitrary.
-/

namespace Galay.Postgres

/-- 32 bytes. -/
abbrev Digest := Vector UInt8 32

def Digest.bytes (digest : Digest) : Bytes := digest.toList

structure Crypto where
  hash : Bytes → Digest
  hmacSha256 (key message : Bytes) : Digest
  /-- A key of 32 bytes, unless it fails. -/
  pbkdf2 (password salt : Bytes) (iterations : Nat) : Bytes
  /-- MD5 as hexadecimal digits. -/
  md5 : Bytes → Bytes

def isValidNonce (nonce : Bytes) : Bool :=
  nonce ≠ [] ∧ nonce.all fun value => ¬ (value < 0x21 ∨ value > 0x7E ∨ value = 0x2C)

def escapeUsername : Bytes → Except Bytes Bytes
  | [] => .ok []
  | value :: username =>
    if value < 0x20 ∨ value = 0x7F then
      .error (ascii "SCRAM username contains a control character")
    else do
      let escaped ← escapeUsername username
      return (if value = 0x2C then ascii "=2C" else if value = 0x3D then ascii "=3D" else [value]) ++
        escaped

/-- How many characters at the end are padding. -/
def paddingOf (encoded : Bytes) : Nat :=
  if encoded.drop (encoded.length - 2) = [0x3D, 0x3D] then 2
  else if encoded.drop (encoded.length - 1) = [0x3D] then 1
  else 0

def isBase64Data (value : UInt8) : Bool :=
  0x41 ≤ value ∧ value ≤ 0x5A ∨ 0x61 ≤ value ∧ value ≤ 0x7A ∨ 0x30 ≤ value ∧ value ≤ 0x39 ∨
    value = 0x2B ∨ value = 0x2F

/-- Characters of the alphabet, and then as many of padding. -/
def isBase64Text (encoded : Bytes) : Bool :=
  let padding := paddingOf encoded
  (encoded.take (encoded.length - padding)).all isBase64Data ∧
    (encoded.drop (encoded.length - padding)).all fun value => isBase64Data value ∨ value = 0x3D

def strictBase64Decode (encoded : Bytes) : Except Bytes Bytes :=
  if encoded = [] ∨ encoded.length % 4 ≠ 0 then
    .error (ascii "invalid Base64 length")
  else if ¬ isBase64Text encoded then
    .error (ascii "invalid Base64 character or padding")
  else if ¬ Utils.base64CanDecode encoded then
    .error (ascii "invalid Base64 input")
  else
    let decoded := Utils.base64Decode encoded
    if decoded = [] then .error (ascii "empty Base64 value")
    else if Utils.base64Encode decoded ≠ encoded then .error (ascii "non-canonical Base64 input")
    else .ok decoded

theorem encode_of_strictBase64Decode
    (h : strictBase64Decode encoded = .ok decoded) : encoded = Utils.base64Encode decoded := by
  rw [strictBase64Decode] at h
  split at h
  · cases h
  split at h
  · cases h
  split at h
  · cases h
  simp only at h
  split at h
  · cases h
  split at h
  · cases h
  rename_i hencode
  cases h
  exact (not_not.1 hencode).symm

/-- A nonce of 18 bytes of a secure generator. -/
def generateNonce (bytes : Bytes) : Except Bytes Bytes :=
  if bytes.length ≠ 18 then
    .error (ascii "failed to generate SCRAM nonce bytes")
  else
    let nonce := Utils.base64Encode bytes
    if ¬ isValidNonce nonce then .error (ascii "failed to encode a valid SCRAM nonce")
    else .ok nonce

inductive ScramPhase
  | Initial | ClientFirstSent | ServerFirstReceived | ClientFinalSent | Verified
  deriving DecidableEq

structure ScramSha256 where
  clientNonce : Bytes := []
  clientFirstBare : Bytes := []
  serverFirst : Bytes := []
  serverNonce : Bytes := []
  salt : Bytes := []
  expectedServerSignature : Digest := Vector.replicate 32 0
  iterations : Nat := 0
  phase : ScramPhase := .Initial

/-- The parts of the server's first message. -/
structure ServerFirst where
  nonce : Bytes
  salt : Bytes
  iterations : Nat

/-- What `parseServerFirst` reads from the message. -/
def readServerFirst (clientNonce serverFirst : Bytes) : Except Bytes ServerFirst :=
  if (ascii "m=").isPrefixOf serverFirst then
    .error (ascii "unsupported mandatory SCRAM extension")
  else
    match serverFirst.splitOn 0x2C with
    | [nonceAttribute, saltAttribute, iterationAttribute] =>
      if ¬ (ascii "r=").isPrefixOf nonceAttribute ∨ ¬ (ascii "s=").isPrefixOf saltAttribute ∨
          ¬ (ascii "i=").isPrefixOf iterationAttribute then
        .error (ascii "unexpected SCRAM server-first attribute order")
      else
        let serverNonce := nonceAttribute.drop 2
        if ¬ isValidNonce serverNonce ∨ ¬ clientNonce.isPrefixOf serverNonce ∨
            serverNonce.length ≤ clientNonce.length then
          .error (ascii "SCRAM server nonce does not extend the client nonce")
        else
          match strictBase64Decode (saltAttribute.drop 2) with
          | .error error => .error (ascii "invalid SCRAM salt: " ++ error)
          | .ok salt =>
            match Lib.fromChars 10 (2 ^ 32 - 1) (iterationAttribute.drop 2) with
            | (.ok iterations, []) =>
              if iterations = 0 then .error (ascii "invalid SCRAM iteration count")
              else .ok { nonce := serverNonce, salt, iterations }
            | _ => .error (ascii "invalid SCRAM iteration count")
    | _ => .error (ascii "malformed SCRAM server-first-message")

/-- The first message of a client without its header. -/
def clientFirstBare (escapedUsername nonce : Bytes) : Bytes :=
  ascii "n=" ++ escapedUsername ++ ascii ",r=" ++ nonce

/-- What both sides sign. -/
def authMessage (clientFirstBare serverFirst serverNonce : Bytes) : Bytes :=
  clientFirstBare ++ ascii "," ++ serverFirst ++ ascii "," ++ (ascii "c=biws,r=" ++ serverNonce)

/-- The signature of a server that knows the password. -/
def serverSignature (crypto : Crypto) (saltedPassword message : Bytes) : Digest :=
  crypto.hmacSha256 (crypto.hmacSha256 saltedPassword (ascii "Server Key")).bytes message

namespace ScramSha256

variable (crypto : Crypto) (scram : ScramSha256)

def clientFirstMessage (username nonce : Bytes) : Except Bytes Bytes × ScramSha256 :=
  if scram.phase ≠ .Initial then
    (.error (ascii "SCRAM client-first-message is out of order"), scram)
  else if ¬ isValidNonce nonce then
    (.error (ascii "invalid SCRAM client nonce"), scram)
  else
    match escapeUsername username with
    | .error error => (.error error, scram)
    | .ok escapedUsername =>
      let bare := Postgres.clientFirstBare escapedUsername nonce
      (.ok (ascii "n,," ++ bare),
        { scram with clientNonce := nonce, clientFirstBare := bare, phase := .ClientFirstSent })

def parseServerFirst (serverFirst : Bytes) : Except Bytes Unit × ScramSha256 :=
  if scram.phase ≠ .ClientFirstSent then
    (.error (ascii "SCRAM server-first-message is out of order"), scram)
  else
    match readServerFirst scram.clientNonce serverFirst with
    | .error error => (.error error, scram)
    | .ok first =>
      (.ok (), { scram with
          serverFirst, serverNonce := first.nonce, salt := first.salt
          iterations := first.iterations, phase := .ServerFirstReceived })

def clientFinalMessage (password : Bytes) : Except Bytes Bytes × ScramSha256 :=
  if scram.phase ≠ .ServerFirstReceived then
    (.error (ascii "SCRAM client-final-message is out of order"), scram)
  else
    let saltedPassword := crypto.pbkdf2 password scram.salt scram.iterations
    if saltedPassword.length ≠ 32 then
      (.error (ascii "PBKDF2-HMAC-SHA256 failed"), scram)
    else
      let message := authMessage scram.clientFirstBare scram.serverFirst scram.serverNonce
      let clientKey := crypto.hmacSha256 saltedPassword (ascii "Client Key")
      let storedKey := crypto.hash clientKey.bytes
      let clientSignature := crypto.hmacSha256 storedKey.bytes message
      let clientProof := clientKey.zipWith (· ^^^ ·) clientSignature
      (.ok (ascii "c=biws,r=" ++ scram.serverNonce ++ ascii ",p=" ++
          Utils.base64Encode clientProof.toList), { scram with
          expectedServerSignature := serverSignature crypto saltedPassword message
          phase := .ClientFinalSent })

/-- The differences of the bytes, all in one. -/
def difference (verifier expected : Bytes) : UInt8 :=
  (verifier.zipWith (· ^^^ ·) expected).foldl (· ||| ·) 0

def verifyServerFinal (serverFinal : Bytes) : Except Bytes Unit × ScramSha256 :=
  if scram.phase ≠ .ClientFinalSent then
    (.error (ascii "SCRAM server-final-message is out of order"), scram)
  else if serverFinal = [] ∨ 0x2C ∈ serverFinal then
    (.error (ascii "malformed SCRAM server-final-message"), scram)
  else if (ascii "e=").isPrefixOf serverFinal then
    (.error (if serverFinal.drop 2 = [] then ascii "empty SCRAM server error"
      else ascii "SCRAM server error: " ++ serverFinal.drop 2), scram)
  else if ¬ (ascii "v=").isPrefixOf serverFinal then
    (.error (ascii "SCRAM server-final-message is missing the verifier"), scram)
  else
    match strictBase64Decode (serverFinal.drop 2) with
    | .error _ => (.error (ascii "invalid SCRAM server signature"), scram)
    | .ok verifier =>
      let expected := scram.expectedServerSignature.bytes
      if verifier.length ≠ expected.length then
        (.error (ascii "invalid SCRAM server signature"), scram)
      else if difference verifier expected ≠ 0 then
        (.error (ascii "SCRAM server signature mismatch"), scram)
      else
        (.ok (), { scram with phase := .Verified })

def reset (_ : ScramSha256) : ScramSha256 := {}

end ScramSha256

/-! ## Calls -/

inductive ScramCall
  | clientFirstMessage (username nonce : Bytes)
  | parseServerFirst (serverFirst : Bytes)
  | clientFinalMessage (password : Bytes)
  | verifyServerFinal (serverFinal : Bytes)
  | reset

section Calls

variable (crypto : Crypto)

/-- Whether a call has succeeded, and what it leaves. -/
def ScramSha256.outcome {α : Type} (r : Except Bytes α × ScramSha256) : Bool × ScramSha256 :=
  (r.1.isOk, r.2)

def ScramSha256.call (scram : ScramSha256) : ScramCall → Bool × ScramSha256
  | .clientFirstMessage username nonce => outcome (scram.clientFirstMessage username nonce)
  | .parseServerFirst serverFirst => outcome (scram.parseServerFirst serverFirst)
  | .clientFinalMessage password => outcome (scram.clientFinalMessage crypto password)
  | .verifyServerFinal serverFinal => outcome (scram.verifyServerFinal serverFinal)
  | .reset => (true, scram.reset)

/-- A run of calls: the calls that have succeeded, and what they leave. -/
def ScramSha256.run (scram : ScramSha256) (accepted : List ScramCall) :
    List ScramCall → List ScramCall × ScramSha256
  | [] => (accepted, scram)
  | call :: calls =>
    let (succeeded, scram) := scram.call crypto call
    scram.run (if succeeded then accepted ++ [call] else accepted) calls

/-- No exchange has been begun. -/
def Fresh (accepted : List ScramCall) : Prop := accepted = [] ∨ ∃ calls, accepted = calls ++ [.reset]

/-- The calls of an exchange up to a server that has shown that it knows the password. -/
structure Exchange (accepted : List ScramCall) (password : Bytes) : Prop where
  proof : ∃ before username nonce serverFirst serverFinal escaped first,
    Fresh before ∧
      accepted = before ++ [.clientFirstMessage username nonce, .parseServerFirst serverFirst,
        .clientFinalMessage password, .verifyServerFinal serverFinal] ∧
      escapeUsername username = .ok escaped ∧ readServerFirst nonce serverFirst = .ok first ∧
      nonce <+: first.nonce ∧ nonce.length < first.nonce.length ∧
      serverFinal = ascii "v=" ++ Utils.base64Encode (serverSignature crypto
        (crypto.pbkdf2 password first.salt first.iterations)
        (authMessage (clientFirstBare escaped nonce) serverFirst first.nonce)).bytes

/-- What a call that succeeds does. -/
inductive Advances : ScramSha256 → ScramCall → ScramSha256 → Prop
  | first {scram : ScramSha256} {username nonce escaped : Bytes} (hph : scram.phase = .Initial)
    (hescape : escapeUsername username = .ok escaped) (hnonce : isValidNonce nonce = true) :
    Advances scram (.clientFirstMessage username nonce)
      { scram with
        clientNonce := nonce, clientFirstBare := clientFirstBare escaped nonce
        phase := .ClientFirstSent }
  | serverFirst {scram : ScramSha256} {serverFirst : Bytes} {first : ServerFirst}
    (hph : scram.phase = .ClientFirstSent)
    (hread : readServerFirst scram.clientNonce serverFirst = .ok first) :
    Advances scram (.parseServerFirst serverFirst)
      { scram with
        serverFirst, serverNonce := first.nonce, salt := first.salt
        iterations := first.iterations, phase := .ServerFirstReceived }
  | final {scram : ScramSha256} {password : Bytes} (hph : scram.phase = .ServerFirstReceived) :
    Advances scram (.clientFinalMessage password)
      { scram with
        expectedServerSignature := serverSignature crypto
          (crypto.pbkdf2 password scram.salt scram.iterations)
          (authMessage scram.clientFirstBare scram.serverFirst scram.serverNonce)
        phase := .ClientFinalSent }
  | verified {scram : ScramSha256} {serverFinal : Bytes} (hph : scram.phase = .ClientFinalSent)
    (hfinal : serverFinal =
      ascii "v=" ++ Utils.base64Encode scram.expectedServerSignature.bytes) :
    Advances scram (.verifyServerFinal serverFinal) { scram with phase := .Verified }
  | reset {scram : ScramSha256} : Advances scram .reset {}

open List

theorem foldl_or_eq_zero {bytes : Bytes} :
    bytes.foldl (· ||| ·) acc = 0 ↔ acc = 0 ∧ ∀ b ∈ bytes, b = 0 := by
  induction bytes generalizing acc with
  | nil => simp
  | cons b bytes ih => rw [foldl_cons, ih, UInt8.or_eq_zero_iff, forall_mem_cons, and_assoc]

theorem eq_of_difference (hlen : verifier.length = expected.length)
    (h : ScramSha256.difference verifier expected = 0) : verifier = expected := by
  have hzero := (foldl_or_eq_zero.1 h).2
  clear h
  induction verifier generalizing expected with
  | nil => exact (eq_nil_of_length_eq_zero hlen.symm).symm
  | cons b verifier ih =>
  cases expected with
  | nil => cases hlen
  | cons b' expected =>
  rw [zipWith_cons_cons, forall_mem_cons] at hzero
  rw [UInt8.xor_eq_zero_iff.1 hzero.1, ih (Nat.succ.inj hlen) hzero.2]

theorem split_of_isPrefixOf {data : Bytes} (h : start.isPrefixOf data = true) :
    data = start ++ data.drop start.length := by
  obtain ⟨rest, rfl⟩ := List.isPrefixOf_iff_prefix.1 h
  rw [drop_left]

/-- A call fails and leaves everything as it was, or it succeeds. -/
theorem call_cases (scram : ScramSha256) (call : ScramCall) :
    scram.call crypto call = (false, scram) ∨
      ∃ next, scram.call crypto call = (true, next) ∧ Advances crypto scram call next := by
  cases call with
  | clientFirstMessage username nonce =>
    rw [ScramSha256.call, ScramSha256.clientFirstMessage]
    split
    · exact .inl rfl
    rename_i hph
    split
    · exact .inl rfl
    rename_i hnonce
    cases hescape : escapeUsername username with
    | error => exact .inl rfl
    | ok escaped => exact .inr ⟨_, rfl, .first (not_not.1 hph) hescape (not_not.1 hnonce)⟩
  | parseServerFirst serverFirst =>
    rw [ScramSha256.call, ScramSha256.parseServerFirst]
    split
    · exact .inl rfl
    rename_i hph
    cases hread : readServerFirst scram.clientNonce serverFirst with
    | error => exact .inl rfl
    | ok first => exact .inr ⟨_, rfl, .serverFirst (not_not.1 hph) hread⟩
  | clientFinalMessage password =>
    rw [ScramSha256.call, ScramSha256.clientFinalMessage]
    split
    · exact .inl rfl
    rename_i hph
    simp only
    split
    · exact .inl rfl
    exact .inr ⟨_, rfl, .final (not_not.1 hph)⟩
  | verifyServerFinal serverFinal =>
    rw [ScramSha256.call, ScramSha256.verifyServerFinal]
    split
    · exact .inl rfl
    rename_i hph
    split
    · exact .inl rfl
    split
    · exact .inl rfl
    split
    · exact .inl rfl
    rename_i hstart
    cases hdecode : strictBase64Decode (serverFinal.drop 2) with
    | error => exact .inl rfl
    | ok verifier =>
    simp only
    split
    · exact .inl rfl
    rename_i hlen
    split
    · exact .inl rfl
    rename_i hdifference
    refine .inr ⟨_, rfl, .verified (not_not.1 hph) ?_⟩
    have hsplit := split_of_isPrefixOf (not_not.1 hstart)
    have hencode := encode_of_strictBase64Decode hdecode
    rw [eq_of_difference (not_not.1 hlen) (not_not.1 hdifference)] at hencode
    rw [← hencode]
    exact hsplit
  | reset => exact .inr ⟨_, rfl, .reset⟩

/-- A call that returns an error leaves the state as it was. -/
theorem call_of_failed {scram : ScramSha256}
    (h : (scram.call crypto call).1 = false) : (scram.call crypto call).2 = scram := by
  rcases call_cases crypto scram call with hcall | ⟨next, hcall, _⟩
  · rw [hcall]
  rw [hcall] at h
  cases h

/-! ## What the calls of an exchange have been -/

/-- The calls that have led to a state, since the last reset. -/
def Traced (scram : ScramSha256) (accepted : List ScramCall) : Prop :=
  ∃ before, Fresh before ∧
    match scram.phase with
    | .Initial => accepted = before
    | .ClientFirstSent => ∃ username escaped,
      accepted = before ++ [.clientFirstMessage username scram.clientNonce] ∧
        escapeUsername username = .ok escaped ∧
        scram.clientFirstBare = clientFirstBare escaped scram.clientNonce
    | .ServerFirstReceived => ∃ username escaped first,
      accepted = before ++ [.clientFirstMessage username scram.clientNonce,
          .parseServerFirst scram.serverFirst] ∧
        escapeUsername username = .ok escaped ∧
        scram.clientFirstBare = clientFirstBare escaped scram.clientNonce ∧
        readServerFirst scram.clientNonce scram.serverFirst = .ok first ∧
        scram.serverNonce = first.nonce ∧ scram.salt = first.salt ∧
        scram.iterations = first.iterations
    | .ClientFinalSent => ∃ username escaped first password,
      accepted = before ++ [.clientFirstMessage username scram.clientNonce,
          .parseServerFirst scram.serverFirst, .clientFinalMessage password] ∧
        escapeUsername username = .ok escaped ∧
        readServerFirst scram.clientNonce scram.serverFirst = .ok first ∧
        scram.expectedServerSignature = serverSignature crypto
          (crypto.pbkdf2 password first.salt first.iterations)
          (authMessage (clientFirstBare escaped scram.clientNonce) scram.serverFirst first.nonce)
    | .Verified => ∃ password, Exchange crypto accepted password

theorem extends_of_readServerFirst (h : readServerFirst clientNonce serverFirst = .ok first) :
    clientNonce <+: first.nonce ∧ clientNonce.length < first.nonce.length := by
  rw [readServerFirst] at h
  split at h
  · cases h
  split at h
  · split at h
    · cases h
    simp only at h
    split at h
    · cases h
    rename_i hnonce
    rw [not_or, not_or, not_not, not_not, not_le] at hnonce
    split at h
    · cases h
    split at h
    · split at h
      · cases h
      cases h
      exact ⟨List.isPrefixOf_iff_prefix.1 hnonce.2.1, hnonce.2.2⟩
    cases h
  cases h

variable {crypto}

variable {accepted : List ScramCall}

theorem Traced.advance {next : ScramSha256} (H : Traced crypto scram accepted)
    (h : Advances crypto scram call next) :
    Traced crypto next (accepted ++ [call]) := by
  obtain ⟨before, hfresh, htrace⟩ := H
  cases h with
  | first hph hescape hnonce =>
    rw [hph] at htrace
    subst htrace
    exact ⟨_, hfresh, _, _, rfl, hescape, rfl⟩
  | serverFirst hph hread =>
    rw [hph] at htrace
    obtain ⟨username, escaped, rfl, hescape, hbare⟩ := htrace
    exact ⟨before, hfresh, username, escaped, _, by rw [append_assoc]; rfl, hescape, hbare,
      hread, rfl, rfl, rfl⟩
  | final hph =>
    rw [hph] at htrace
    obtain ⟨username, escaped, first, rfl, hescape, hbare, hread, hnonce, hsalt, hiterations⟩ := htrace
    refine ⟨before, hfresh, username, escaped, first, _, by rw [append_assoc]; rfl, hescape,
      hread, ?_⟩
    rw [hbare, hnonce, hsalt, hiterations]
  | verified hph hfinal =>
    rw [hph] at htrace
    obtain ⟨username, escaped, first, password, rfl, hescape, hread, hsignature⟩ := htrace
    obtain ⟨hextends, hlen⟩ := extends_of_readServerFirst hread
    refine ⟨before, hfresh, password, ⟨before, username, _, _, _, escaped, first, hfresh,
      by rw [append_assoc]; rfl, hescape, hread, hextends, hlen, ?_⟩⟩
    rw [hfinal, hsignature]
  | reset => exact ⟨_, .inr ⟨accepted, rfl⟩, rfl⟩

theorem Traced.run {scram : ScramSha256} (H : Traced crypto scram accepted) (calls : List ScramCall)
    :
    Traced crypto (scram.run crypto accepted calls).2 (scram.run crypto accepted calls).1 := by
  induction calls generalizing scram accepted with
  | nil => exact H
  | cons call calls ih =>
  rw [ScramSha256.run]
  rcases call_cases crypto scram call with hcall | ⟨next, hcall, hadvances⟩
  · rw [hcall]
    exact ih H
  rw [hcall]
  exact ih (H.advance hadvances)

theorem run_concat {scram : ScramSha256} (calls : List ScramCall) (call : ScramCall) :
    (scram.run crypto accepted (calls ++ [call])).2 =
      ((scram.run crypto accepted calls).2.call crypto call).2 := by
  induction calls generalizing scram accepted with
  | nil => rfl
  | cons first calls ih =>
  rw [cons_append, ScramSha256.run, ScramSha256.run]
  exact ih

theorem mem_of_accepted {scram : ScramSha256}
    (h : call ∈ (scram.run crypto accepted calls).1) : call ∈ accepted ∨ call ∈ calls := by
  induction calls generalizing scram accepted with
  | nil => exact .inl h
  | cons first calls ih =>
  rw [ScramSha256.run] at h
  rcases call_cases crypto scram first with hcall | ⟨next, hcall, _⟩
  · rw [hcall] at h
    rcases ih h with hacc | hcalls
    · exact .inl hacc
    exact .inr (mem_cons_of_mem _ hcalls)
  rw [hcall] at h
  rcases ih h with hacc | hcalls
  · rcases List.mem_append.1 hacc with hbefore | hfirst
    · exact .inl hbefore
    exact .inr (List.mem_singleton.1 hfirst ▸ mem_cons_self)
  exact .inr (mem_cons_of_mem _ hcalls)

theorem exchange_of_verified (h : (ScramSha256.run crypto {} [] calls).2.phase = .Verified) :
    ∃ password, Exchange crypto (ScramSha256.run crypto {} [] calls).1 password := by
  have H : Traced crypto {} [] := ⟨[], .inl rfl, rfl⟩
  obtain ⟨before, hfresh, htrace⟩ := H.run calls
  rw [h] at htrace
  exact htrace

end Calls

end Galay.Postgres
