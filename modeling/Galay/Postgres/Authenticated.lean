import Galay.Postgres.Connect

/-!
# What a connection that is established rests on

Whatever the backend sends, a connection is established only after an AuthenticationOk, and after a
SASL exchange that has been begun has verified that the server knows the password.
-/

namespace Galay.Postgres

open List

theorem advances_of_call {next : ScramSha256}
    (h : scram.call crypto call = (true, next)) : Advances crypto scram call next := by
  rcases call_cases crypto scram call with hcall | ⟨reached, hcall, hadvances⟩
  · rw [h] at hcall
    cases hcall
  rw [h] at hcall
  cases hcall
  exact hadvances

theorem MessageView.Requests.unique {message : MessageView}
    (h : message.Requests kind) (h' : message.Requests kind') : kind = kind' := by
  obtain ⟨_, authentication, hparse, rfl⟩ := h
  obtain ⟨_, other, hparse', rfl⟩ := h'
  rw [hparse] at hparse'
  cases hparse'
  rfl

theorem generateNonce_ne_nil (h : generateNonce bytes = .ok nonce) : nonce ≠ [] := by
  rw [generateNonce] at h
  split at h
  · cases h
  simp only at h
  split at h
  · cases h
  rename_i hvalid
  cases h
  rw [not_not, isValidNonce, decide_eq_true_iff] at hvalid
  exact hvalid.1

/-- What an exchange has come to rests on calls with the password of the configuration. -/
def Signs (crypto : Crypto) (password : Bytes) (scram : ScramSha256) : Prop :=
  ∃ calls, scram = (ScramSha256.run crypto {} [] calls).2 ∧
    ∀ used, .clientFinalMessage used ∈ calls → used = password

namespace Signs

variable {crypto : Crypto} {password : Bytes} {scram : ScramSha256}

theorem call {next : ScramSha256} {call : ScramCall} (H : Signs crypto password scram)
    (h : scram.call crypto call = (true, next))
    (hcall : ∀ used, call = .clientFinalMessage used → used = password) :
    Signs crypto password next := by
  obtain ⟨calls, rfl, hcalls⟩ := H
  refine ⟨calls ++ [call], ?_, ?_⟩
  · rw [run_concat, h]
  intro used hused
  rcases mem_append.1 hused with hbefore | hlast
  · exact hcalls used hbefore
  exact hcall used (mem_singleton.1 hlast).symm

end Signs

namespace ConnectState

/-- What holds of a machine that has not failed. -/
structure Sound (crypto : Crypto) (password : Bytes) (state : ConnectState) : Prop where
  password_eq : state.config.password = password
  signs : Signs crypto password state.scram
  /-- Whether the backend has asked for a SASL exchange. -/
  begun : (∃ message ∈ state.taken, message.Requests .Sasl) → state.clientNonce ≠ []
  verified : state.serverSignatureVerified = true → state.scram.phase = .Verified
  authenticated : state.authenticationOk = true → ∃ message ∈ state.taken, message.Requests .Ok
  established : state.phase = .StartupComplete ∨ state.phase = .Done ∨
    state.result = some (.ok (some true)) → state.authenticationOk = true ∧
      (state.clientNonce = [] ∨ state.serverSignatureVerified = true)

variable {crypto : Crypto} {password : Bytes} {state : ConnectState}

namespace Sound

variable {message : MessageView} {consumed : Nat} {next : ConnectState}

theorem handles (H : state.Sound crypto password) (hres : state.result = none)
    (h : Handles crypto (state.consume message consumed) message next) :
    next.Sound crypto password := by
  have hbegun : ¬ message.Requests .Sasl →
      (∃ message' ∈ state.taken ++ [message], message'.Requests .Sasl) → state.clientNonce ≠ [] := by
    rintro hno ⟨message', hmem, hreqs⟩
    rcases mem_append.1 hmem with hbefore | hlast
    · exact H.begun ⟨message', hbefore, hreqs⟩
    rw [mem_singleton] at hlast
    exact absurd (hlast ▸ hreqs) hno
  have hauth : state.authenticationOk = true →
      ∃ message' ∈ state.taken ++ [message], message'.Requests .Ok := by
    intro hok
    obtain ⟨message', hmem, hreqs⟩ := H.authenticated hok
    exact ⟨message', mem_append_left _ hmem, hreqs⟩
  have hwrite {result : Option (Except PostgresError (Option Bool))} {P : Prop}
      (hnone : result = none) : Phase.AuthWrite = .StartupComplete ∨ Phase.AuthWrite = .Done ∨
        result = some (.ok (some true)) → P := by
    rintro (hph | hph | hdone)
    · cases hph
    · cases hph
    rw [hnone] at hdone
    cases hdone
  cases h with
  | ok hreqs =>
    exact {
      password_eq := H.password_eq
      signs := H.signs
      begun := hbegun fun hsasl => by cases hsasl.unique hreqs
      verified := H.verified
      authenticated _ := ⟨message, mem_append_right _ mem_cons_self, hreqs⟩
      established hend := ⟨rfl, (H.established hend).2⟩ }
  | @sasl nonce first outgoing scram secure hnonce hfirst =>
    have hcall : state.scram.call crypto (.clientFirstMessage [] nonce) = (true, scram) := by
      rw [ScramSha256.call]
      exact congrArg ScramSha256.outcome hfirst
    have hinit : state.scram.phase = .Initial := by
      cases advances_of_call hcall
      assumption
    exact {
      password_eq := H.password_eq
      signs := H.signs.call hcall (by rintro _ ⟨⟩)
      begun _ := generateNonce_ne_nil hnonce
      verified hverified := by
        rw [H.verified hverified] at hinit
        cases hinit
      authenticated := hauth
      established := hwrite hres }
  | @saslContinue data final outgoing parsed scram hother hparse hfinal =>
    have hcall : state.scram.call crypto (.parseServerFirst data) = (true, parsed) := by
      rw [ScramSha256.call]
      exact congrArg ScramSha256.outcome hparse
    have hcall' : parsed.call crypto (.clientFinalMessage password) = (true, scram) := by
      rw [ScramSha256.call, ← H.password_eq]
      exact congrArg ScramSha256.outcome hfinal
    have hsent : state.scram.phase = .ClientFirstSent := by
      cases advances_of_call hcall
      assumption
    exact {
      password_eq := H.password_eq
      signs := (H.signs.call hcall (by rintro _ ⟨⟩)).call hcall' fun used hused => by
        cases hused
        rfl
      begun := hbegun fun hsasl => by cases hother _ hsasl
      verified hverified := by
        rw [H.verified hverified] at hsent
        cases hsent
      authenticated := hauth
      established := hwrite hres }
  | @saslFinal data scram hother hverified =>
    have hcall : state.scram.call crypto (.verifyServerFinal data) = (true, scram) := by
      rw [ScramSha256.call]
      exact congrArg ScramSha256.outcome hverified
    exact {
      password_eq := H.password_eq
      signs := H.signs.call hcall (by rintro _ ⟨⟩)
      begun := hbegun fun hsasl => by cases hother _ hsasl
      verified _ := by
        cases advances_of_call hcall
        rfl
      authenticated := hauth
      established hend := ⟨(H.established hend).1, .inr rfl⟩ }
  | password hother =>
    exact {
      password_eq := H.password_eq
      signs := H.signs
      begun := hbegun fun hsasl => by cases hother _ hsasl <;> contradiction
      verified := H.verified
      authenticated := hauth
      established := hwrite hres }
  | common hother =>
    exact {
      password_eq := H.password_eq
      signs := H.signs
      begun := hbegun (hother _)
      verified := H.verified
      authenticated := hauth
      established := H.established }
  | ready hother hok hverified =>
  exact {
    password_eq := H.password_eq
    signs := H.signs
    begun := hbegun (hother _)
    verified := H.verified
    authenticated := hauth
    established _ := ⟨hok, hverified⟩ }

end Sound

/-- A machine that has failed, or of which everything holds. -/
def Safe (crypto : Crypto) (password : Bytes) (state : ConnectState) : Prop :=
  (∃ error, state.result = some (.error error)) ∨ state.Sound crypto password

theorem Safe.setError (error : PostgresError) : (state.setError error).Safe crypto password :=
  .inl ⟨error, rfl⟩

theorem Safe.setIoError (error : IOError) (fallback : PostgresErrorType) :
    (state.setIoError error fallback).Safe crypto password := by
  rw [ConnectState.setIoError]
  split
  · exact Safe.setError _
  exact .inl ⟨_, rfl⟩

theorem result_of_handles {next : ConnectState} (h : Handles crypto state message next) :
    next.result = state.result := by
  cases h <;> rfl

/-- The loop over the messages keeps it, unless the machine fails. -/
theorem Sound.parseFromRingBuffer (H : state.Sound crypto password) (hres : state.result = none) :
    (∃ error, (state.parseFromRingBuffer crypto).1 = .error error) ∨
      (state.parseFromRingBuffer crypto).2.Sound crypto password := by
  fun_induction ConnectState.parseFromRingBuffer crypto state with
  | case1 state => exact .inr H
  | case2 state => exact .inl ⟨_, rfl⟩
  | case3 state message consumed hfront next hnext ih =>
    have hhandles := onMessage_cases (congrArg Handled.state? hnext)
    exact ih (H.handles hres hhandles) ((result_of_handles hhandles).trans hres)
  | case4 state message consumed hfront next hnext =>
    exact .inr (H.handles hres (onMessage_cases (congrArg Handled.state? hnext)))
  | case5 => exact .inl ⟨_, rfl⟩

section Step

variable (H : state.Sound crypto password) (hres : state.result = none)
include H hres

omit hres in
theorem Sound.advanceConnect (options : Except Bytes Unit) :
    (advanceConnect options state).2.Safe crypto password := by
  rw [ConnectState.advanceConnect.eq_def]
  cases options with
  | error message => exact Safe.setError _
  | ok =>
  exact .inr {
    password_eq := H.password_eq
    signs := H.signs
    begun := H.begun
    verified := H.verified
    authenticated := H.authenticated
    established := H.established }

omit hres in
theorem Sound.advanceWrite : (advanceWrite state).2.Safe crypto password := by
  rw [ConnectState.advanceWrite]
  split
  · refine .inr { H with established := ?_ }
    rintro (hph | hph | hdone)
    · cases hph
    · cases hph
    exact H.established (.inr (.inr hdone))
  exact .inr H

theorem Sound.advanceRead : (advanceRead crypto state).2.Safe crypto password := by
  have hparse := H.parseFromRingBuffer hres
  rw [ConnectState.advanceRead]
  split
  · exact Safe.setError _
  · rename_i hgot
    rw [hgot] at hparse
    obtain ⟨error, herr⟩ | hsound := hparse
    · cases herr
    exact .inr hsound
  rename_i hgot
  rw [hgot] at hparse
  obtain ⟨error, herr⟩ | hsound := hparse
  · cases herr
  split
  · exact Safe.setError _
  exact .inr hsound

omit hres in
theorem Sound.completeSuccess (hph : state.phase = .StartupComplete ∨ state.phase = .Done) :
    state.completeSuccess.Safe crypto password :=
  .inr { H with established := fun _ => H.established (hph.imp id .inl) }

theorem Sound.advance (options : Except Bytes Unit) :
    (advance crypto options state).2.Safe crypto password := by
  rw [ConnectState.advance, hres]
  simp only
  split
  · exact Safe.setError _
  · exact H.advanceConnect options
  · exact H.advanceWrite
  · exact H.advanceWrite
  · exact H.advanceRead hres
  · rename_i hph
    exact H.completeSuccess (.inl hph)
  rename_i hph
  exact H.completeSuccess (.inr hph)

theorem Sound.onConnect (result : Except IOError Unit) :
    (onConnect result state).Safe crypto password := by
  rw [ConnectState.onConnect.eq_def, if_neg (by rw [hres]; exact Bool.false_ne_true)]
  cases result with
  | error error => exact Safe.setIoError _ _
  | ok =>
  refine .inr { H with established := ?_ }
  rintro (hph | hph | hdone)
  · cases hph
  · cases hph
  exact H.established (.inr (.inr hdone))

theorem Sound.onRead (result : Except IOError Bytes) :
    (onRead crypto result state).Safe crypto password := by
  rw [ConnectState.onRead.eq_def, if_neg (by rw [hres]; exact Bool.false_ne_true)]
  split
  · exact Safe.setIoError _ _
  · exact Safe.setError _
  rename_i data _
  have hread : { state with ringBuffer := state.ringBuffer ++ data }.Sound crypto password :=
    { H with }
  have hparse := hread.parseFromRingBuffer hres
  split
  · exact Safe.setError _
  rename_i hgot
  rw [hgot] at hparse
  obtain ⟨error, herr⟩ | hsound := hparse
  · cases herr
  exact .inr hsound

theorem Sound.onWrite (result : Except IOError Nat) :
    (onWrite result state).Safe crypto password := by
  rw [ConnectState.onWrite.eq_def, if_neg (by rw [hres]; exact Bool.false_ne_true)]
  split
  · exact Safe.setIoError _ _
  · exact Safe.setError _
  exact .inr { H with }

theorem Sound.step (event : ConnectEvent) : (state.step crypto event).Safe crypto password := by
  cases event with
  | advance options => exact H.advance hres options
  | onConnect result => exact H.onConnect hres result
  | onRead result => exact H.onRead hres result
  | onWrite result => exact H.onWrite hres result

end Step

theorem step_of_result {result : Except PostgresError (Option Bool)}
    (hres : state.result = some result) (event : ConnectEvent) :
    state.step crypto event = state := by
  cases event with
  | advance options => rw [step, ConnectState.advance, hres]
  | onConnect => rw [step, ConnectState.onConnect.eq_def, hres]; rfl
  | onRead => rw [step, ConnectState.onRead.eq_def, hres]; rfl
  | onWrite => rw [step, ConnectState.onWrite.eq_def, hres]; rfl

theorem Safe.step (H : state.Safe crypto password) (event : ConnectEvent) :
    (state.step crypto event).Safe crypto password := by
  cases hres : state.result with
  | some result =>
    rw [step_of_result hres]
    exact H
  | none =>
  rcases H with ⟨error, herr⟩ | H
  · rw [hres] at herr
    cases herr
  exact H.step hres event

theorem Safe.run (H : state.Safe crypto password) (events : List ConnectEvent) :
    (state.run crypto events).Safe crypto password := by
  induction events generalizing state with
  | nil => exact H
  | cons event events ih => exact ih (H.step event)

/-- A machine that is made for a connect. -/
def init (config : PostgresConfig) (capacity : Nat) (secure : Nat → Bytes) (client : Client)
    (isClosed hostValid : Bool) (ringBuffer : Bytes) : ConnectState :=
  { config, capacity, secure, client, isClosed, ringBuffer : ConnectState }.start hostValid

theorem safe_init (config : PostgresConfig) (capacity : Nat)
    (secure : Nat → Bytes) (client : Client) (isClosed hostValid : Bool) (ringBuffer : Bytes) :
    (init config capacity secure client isClosed hostValid ringBuffer).Safe crypto
      config.password := by
  have hsigns : Signs crypto config.password {} := ⟨[], rfl, nofun⟩
  rw [init, start]
  split
  · exact .inl ⟨_, rfl⟩
  simp only
  split
  · exact .inl ⟨_, rfl⟩
  exact .inr ⟨rfl, hsigns, nofun, nofun, nofun, nofun⟩

end ConnectState

/-- What an established connection rests on: an AuthenticationOk and, once a SASL exchange has been
begun, a SCRAM exchange with this password. -/
structure Rests (crypto : Crypto) (password : Bytes) (state : ConnectState) : Prop where
  ok : ∃ message ∈ state.taken, message.Requests .Ok
  verified : (∃ message ∈ state.taken, message.Requests .Sasl) →
    state.scram.phase = .Verified ∧
      ∃ calls, state.scram = (ScramSha256.run crypto {} [] calls).2 ∧
        Exchange crypto (ScramSha256.run crypto {} [] calls).1 password

theorem ConnectState.Safe.rests
    (H : state.Safe crypto password) (hres : state.result = some (.ok (some true))) :
    Rests crypto password state := by
  rcases H with ⟨error, herr⟩ | H
  · rw [hres] at herr
    cases herr
  obtain ⟨hok, hverified⟩ := H.established (.inr (.inr hres))
  refine ⟨H.authenticated hok, fun hbegun => ?_⟩
  have hph := H.verified (hverified.resolve_left (H.begun hbegun))
  obtain ⟨calls, hscram, hcalls⟩ := H.signs
  obtain ⟨used, hexchange⟩ := exchange_of_verified (hscram ▸ hph)
  have hmem : .clientFinalMessage used ∈ (ScramSha256.run crypto {} [] calls).1 := by
    obtain ⟨before, username, nonce, serverFirst, serverFinal, _, _, _, hacc, _⟩ :=
      hexchange.proof
    rw [hacc]
    simp only [mem_append, mem_cons, true_or, or_true]
  have hused : used = password := by
    rcases mem_of_accepted hmem with hnil | hcall
    · cases hnil
    exact hcalls used hcall
  exact ⟨hph, calls, hscram, hused ▸ hexchange⟩

open ConnectState in
/-- Whatever happens to a machine, and whatever is done with an exchange. -/
theorem authentication_safe (crypto : Crypto) :
    (∀ (config : PostgresConfig) (capacity : Nat) (secure : Nat → Bytes) (client : Client)
      (isClosed hostValid : Bool) (ringBuffer : Bytes) (events : List ConnectEvent),
      let state := init config capacity secure client isClosed hostValid ringBuffer
      (state.run crypto events).result = some (.ok (some true)) →
        Rests crypto config.password (state.run crypto events)) ∧
    (∀ calls, (ScramSha256.run crypto {} [] calls).2.phase = .Verified →
      ∃ password, Exchange crypto (ScramSha256.run crypto {} [] calls).1 password) ∧
    ∀ (scram : ScramSha256) (call : ScramCall), (scram.call crypto call).1 = false →
      (scram.call crypto call).2 = scram := by
  refine ⟨?_, fun _ => exchange_of_verified, fun scram call => call_of_failed crypto⟩
  intro config capacity secure client isClosed hostValid ringBuffer events state hres
  exact ((safe_init config capacity secure client isClosed hostValid ringBuffer).run
    events).rests hres

/-! ## A connect -/

/-- A server and a client that agree on a digest of zeros. -/
def zeros : Crypto where
  hash _ := .replicate 32 0
  hmacSha256 _ _ := .replicate 32 0
  pbkdf2 _ _ _ := replicate 32 0
  md5 _ := []

/-- A user who is asked for a SASL exchange. -/
def scramConfig : PostgresConfig := { username := ascii "u", password := ascii "p" }

def serverFirst : Bytes := ascii "r=AAAAAAAAAAAAAAAAAAAAAAAAB,s=AAAA,i=4096"

def serverFinal : Bytes := ascii "v=" ++ Utils.base64Encode (replicate 32 0)

def authentication (kind : UInt8) (data : Bytes) : Bytes :=
  (MessageView.mk kMsgAuthentication ([0, 0, 0, kind] ++ data)).wire

def scramEvents : List ConnectEvent :=
  [.advance (.ok ()), .onConnect (.ok ()), .advance (.ok ()), .onWrite (.ok 16), .advance (.ok ()),
    .onRead (.ok (authentication 10 (ascii "SCRAM-SHA-256" ++ [0, 0]))), .advance (.ok ()),
    .onWrite (.ok 55), .advance (.ok ()), .onRead (.ok (authentication 11 serverFirst)),
    .advance (.ok ()), .onWrite (.ok 86), .advance (.ok ()),
    .onRead (.ok (authentication 12 serverFinal ++ authentication 0 [] ++
      (MessageView.mk kMsgReadyForQuery [0x49]).wire)), .advance (.ok ())]

def scramCalls : List ScramCall :=
  [.clientFirstMessage [] (ascii "AAAAAAAAAAAAAAAAAAAAAAAA"), .parseServerFirst serverFirst,
    .clientFinalMessage (ascii "p"), .verifyServerFinal serverFinal]

def scramState : ConnectState :=
  (ConnectState.init scramConfig 16384 (fun _ => replicate 18 0) {} true true []).run zeros
    scramEvents

theorem authentication_safe_zeros :
    Rests zeros (ascii "p") scramState ∧
      (∃ password, Exchange zeros (ScramSha256.run zeros {} [] scramCalls).1 password) ∧
      (ScramSha256.call zeros {} (.parseServerFirst [])).2 = {} := by
  have hres : scramState.result = some (.ok (some true)) := by decide +kernel
  have hph : (ScramSha256.run zeros {} [] scramCalls).2.phase = .Verified := by decide +kernel
  obtain ⟨hconnect, hcalls, hfailed⟩ := authentication_safe zeros
  exact ⟨hconnect scramConfig 16384 _ _ _ _ _ scramEvents hres, hcalls scramCalls hph,
    hfailed {} (.parseServerFirst []) (by decide +kernel)⟩

end Galay.Postgres
