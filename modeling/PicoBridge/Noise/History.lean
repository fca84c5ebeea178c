/-
The device's and the host's Noise procedures beside the history of their
calls to the cryptographic libraries.

# What is modelled how

- A logged procedure is the procedure with each of its library calls
  noted: ephemeral keys drawn, shared secrets, HKDF outputs, and uses of
  the cipher with their key and counter. A use that returns nothing (a
  library failure, a tag that does not verify) is noted as such; a call
  that fails otherwise leaves no note.
- That each one does what the procedure it logs does is
  `handshakeBody_logged`, `beginHandshake_logged` and
  `completeHandshake_logged`; of the transport calls, which are one step
  each, it is the definition.
- `Parties` are the device and at most one host object. The host is made
  anew for every connection (`connect`), every message either side gets
  is the environment's, and every ephemeral key is an argument of the
  step that draws it.
-/
import PicoBridge.Lib.Machine
import PicoBridge.Lib.KeySchedule
import PicoBridge.Noise.Transport

namespace PicoBridge

open Lib Lib.Procedure Lib.KeySchedule

-- ============================================================== the notes

inductive Party
  | device
  | host
  deriving DecidableEq, Repr

/-- The calls of both sides, in order. -/
abbrev History := List (Event Party Key (List UInt8))

def noteDrawn : Option Key → History
  | some priv => [.drawn priv]
  | none => []

def noteShared (priv : Key) : Option Key → History
  | some secret => [.shared priv secret.toList]
  | none => []

def noteDerived (party : Party) (salt : Key) (input : List UInt8) :
    Option (Key × Key) → History
  | some (first, second) => [.derived party ⟨salt, input, first, second⟩]
  | none => []

variable (lib : Crypto)

-- ============================================================= the device

/-- A procedure of the device beside the history. -/
abbrev LoggedNoise (α : Type) := EStateM Unit (NoiseIkCtx × History) α

def loggedMixKey (data : List UInt8) : LoggedNoise Unit :=
  record (fun ctx => noteDerived .device ctx.ck data (lib.hkdf ctx.ck data)) (mixKey lib data)

def loggedMixDh (priv pub : Key) : LoggedNoise Unit := do
  let shared ← record (fun _ => noteShared priv (x25519Dh lib priv pub))
    (ofOption () (x25519Dh lib priv pub))
  loggedMixKey lib shared.toList

def loggedEncryptAndHash (plaintext : List UInt8) : LoggedNoise (List UInt8) :=
  record (fun ctx =>
    if ctx.nonceCounter = uint64Max then []
    else
      [.used .device .sealing ctx.key ctx.nonceCounter.toNat
        (lib.encrypt ctx.key (noiseNonce ctx.nonceCounter) ctx.h.toList plaintext).isSome])
    (cipherEncryptAndHash lib plaintext)

def loggedDecryptAndHash (encrypted : List UInt8) : LoggedNoise (List UInt8) :=
  record (fun ctx =>
    if encrypted.length < noiseIkTagLen ∨ ctx.nonceCounter = uint64Max then []
    else
      [.used .device .opening ctx.key ctx.nonceCounter.toNat
        (lib.decrypt ctx.key (noiseNonce ctx.nonceCounter) ctx.h.toList encrypted).isSome])
    (cipherDecryptAndHash lib encrypted)

def loggedSplitTransport : LoggedNoise Unit :=
  record (fun ctx => noteDerived .device ctx.ck [] (lib.hkdf ctx.ck [])) (splitTransport lib)

def loggedReadInitiator (priv : Key) (message : List UInt8) : LoggedNoise (List UInt8) := do
  quietly (mixHash lib (message.take noiseIkKeyLen))
  loggedMixDh lib priv (keyAt message 0)
  loggedDecryptAndHash lib (message.drop noiseIkKeyLen)

def loggedIdentifyInitiator (message : List UInt8) : LoggedNoise Key := do
  quietly (resetHandshakeState lib)
  let ctx ← quietly get
  let plaintext ← loggedReadInitiator lib ctx.deviceStaticPriv message
  quietly do
    if plaintext.length ≠ noiseIkKeyLen ∨ ¬(← get).controllersSet then throw ()
    pure (keyAt plaintext 0)

def loggedWriteResponse (priv initiatorStatic initiatorEph : Key)
    (responderEph : Option (Key × Key)) : LoggedNoise (List UInt8) := do
  loggedMixDh lib priv initiatorStatic
  let (ephPriv, ephPub) ← record (fun _ => noteDrawn (responderEph.map Prod.fst))
    (ofOption () responderEph)
  quietly (mixHash lib ephPub.toList)
  loggedMixDh lib ephPriv initiatorEph
  loggedMixDh lib ephPriv initiatorStatic
  let ack ← loggedEncryptAndHash lib ikAck
  quietly do
    if ack.length ≠ noiseIkResponseLen - noiseIkKeyLen then throw ()
    pure (ephPub.toList ++ ack)

def loggedHandshakeBody (controllers : ControllerStore) (responderEph : Option (Key × Key))
    (message : List UInt8) : LoggedNoise (List UInt8) := do
  let initiatorStatic ← loggedIdentifyInitiator lib message
  let (slot, role) ← quietly (ofOption () (scanRoster controllers initiatorStatic))
  let ctx ← quietly get
  let response ← loggedWriteResponse lib ctx.deviceStaticPriv initiatorStatic
    (keyAt message 0) responderEph
  loggedSplitTransport lib
  quietly do
    modify fun ctx =>
      { ctx with authenticatedSlot := slot, authenticatedRole := role, ready := true }
    pure response

def loggedDecryptPacket (packet : List UInt8) (plaintextCap : Nat) : LoggedNoise (List UInt8) :=
  record (fun ctx =>
    if ¬ctx.ready ∨ packet.length < noiseIkTransportOverhead ∨ ctx.receiveNonce = uint64Max
    then []
    else if packet.length - noiseIkTransportOverhead > plaintextCap ∨
        packet.length - noiseIkTransportOverhead > noiseIkMaxPlaintext then []
    else if leValue (packet.take noiseIkTransportNonceLen) ≠ ctx.receiveNonce.toNat then []
    else
      [.used .device .opening ctx.receiveKey ctx.receiveNonce.toNat
        (lib.decrypt ctx.receiveKey (noiseNonce ctx.receiveNonce) []
          (packet.drop noiseIkTransportNonceLen)).isSome])
    (noiseDecryptPacket lib packet plaintextCap)

def loggedEncryptTransportAck (commandStatus : UInt8) (packetCap : Nat) :
    LoggedNoise (List UInt8) :=
  record (fun ctx =>
    if ¬ctx.ready ∨ packetCap < noiseIkTransportResponseLen ∨ ctx.sendNonce = uint64Max then []
    else
      [.used .device .sealing ctx.sendKey ctx.sendNonce.toNat
        (lib.encrypt ctx.sendKey (noiseNonce ctx.sendNonce) []
          (transportAck ++ [commandStatus])).isSome])
    (noiseEncryptTransportAck lib commandStatus packetCap)

-- =============================================================== the host

/-- A method of the host beside the history. -/
abbrev LoggedHost (α : Type) := EStateM HostError (NoiseIKInitiator × History) α

def loggedHostMixKey (data : List UInt8) : LoggedHost Unit :=
  record (fun self => noteDerived .host self.ck data (lib.extractExpand self.ck data))
    (hostMixKey lib data)

def loggedHostMixDh (priv pub : Key) : LoggedHost Unit := do
  let shared ← record (fun _ => noteShared priv (exchange lib priv pub))
    (ofOption .library (exchange lib priv pub))
  loggedHostMixKey lib shared.toList

/-- A use of the handshake's cipher, where it has a key and a nonce. -/
def noteHostCipher (op : Operation) (call : Key → List UInt8 → Option (List UInt8))
    (self : NoiseIKInitiator) : History :=
  match self.key, hostNoiseNonce self.nonce with
  | some key, some nonce => [.used .host op key self.nonce (call key nonce).isSome]
  | _, _ => []

def loggedHostEncryptAndHash (plaintext : List UInt8) : LoggedHost (List UInt8) :=
  record (fun self => noteHostCipher .sealing
      (fun key nonce => lib.encrypt key nonce self.h.toList plaintext) self)
    (encryptAndHash lib plaintext)

def loggedHostDecryptAndHash (ciphertext : List UInt8) : LoggedHost (List UInt8) :=
  record (fun self => noteHostCipher .opening
      (fun key nonce => lib.decrypt key nonce self.h.toList ciphertext) self)
    (decryptAndHash lib ciphertext)

def loggedSplit : LoggedHost Unit :=
  record (fun self => noteDerived .host self.ck [] (lib.extractExpand self.ck [])) (split lib)

def loggedWriteInitiator (staticPriv staticPub ephPriv ephPub devicePub : Key) :
    LoggedHost (List UInt8) := do
  quietly (hostMixHash lib ephPub.toList)
  loggedHostMixDh lib ephPriv devicePub
  let encryptedStatic ← loggedHostEncryptAndHash lib staticPub.toList
  loggedHostMixDh lib staticPriv devicePub
  pure encryptedStatic

def loggedBeginHandshake (ephPriv : Key) : LoggedHost (List UInt8) := do
  let ephPub ← quietly (ofOption .library (publicKey lib ephPriv))
  record (fun _ => noteDrawn (some ephPriv))
    (modify fun self => { self with ephPriv := some ephPriv, ephPub := some ephPub })
  let self ← quietly get
  let encryptedStatic ←
    loggedWriteInitiator lib self.staticPriv self.staticPub ephPriv ephPub self.devicePub
  pure (ephPub.toList ++ encryptedStatic)

def loggedReadResponder (staticPriv ephPriv responderEph : Key) (encryptedAck : List UInt8) :
    LoggedHost (List UInt8) := do
  quietly (hostMixHash lib responderEph.toList)
  loggedHostMixDh lib ephPriv responderEph
  loggedHostMixDh lib staticPriv responderEph
  loggedHostDecryptAndHash lib encryptedAck

def loggedCompleteHandshake (response : List UInt8) : LoggedHost Unit := do
  let self ← quietly get
  match self.ephPriv with
  | none => throw .responseLength
  | some ephPriv =>
      if response.length ≠ noiseResponseMessageLen then throw .responseLength
      let ack ← loggedReadResponder lib self.staticPriv ephPriv (keyAt response 0)
        (response.drop 32)
      if ack ≠ noiseAck then throw .acknowledgement
      loggedSplit lib

def loggedEncryptPacket (plaintext : List UInt8) : LoggedHost (List UInt8) :=
  record (fun self =>
    match self.sendKey, self.receiveKey, hostNoiseNonce self.sendNonce with
    | some sendKey, some _, some nonce =>
        [.used .host .sealing sendKey self.sendNonce
          (lib.encrypt sendKey nonce [] plaintext).isSome]
    | _, _, _ => [])
    (encryptPacket lib plaintext)

/-- A receipt of the right length and command byte under the counter the
host expects. -/
def NoiseIKInitiator.expects (self : NoiseIKInitiator) (packet : List UInt8) : Prop :=
  packet.length = 1 + 8 + hostTransportAck.length + 1 + 16 ∧ packet.getD 0 0 = cmdEncrypted ∧
    leValue ((packet.drop 1).take 8) = self.receiveNonce

instance (self : NoiseIKInitiator) (packet : List UInt8) : Decidable (self.expects packet) :=
  inferInstanceAs (Decidable (_ ∧ _ ∧ _))

def loggedVerifyTransportAck (packet : List UInt8) : LoggedHost UInt8 :=
  record (fun self =>
    match self.sendKey, self.receiveKey, hostNoiseNonce self.receiveNonce with
    | some _, some receiveKey, some nonce =>
        if self.expects packet then
          [.used .host .opening receiveKey self.receiveNonce
            (lib.decrypt receiveKey nonce [] (packet.drop 9)).isSome]
        else []
    | _, _, _ => [])
    (verifyTransportAck lib packet)

-- ======================================================== the calls in short

variable {lib}

theorem noteHostCipher_cases (op : Operation)
    (call : Key → List UInt8 → Option (List UInt8)) (self : NoiseIKInitiator) :
    noteHostCipher op call self = [] ∨ ∃ key nonce, self.key = some key ∧
      noteHostCipher op call self = [.used .host op key self.nonce (call key nonce).isSome] := by
  unfold noteHostCipher
  split
  next key nonce hkey _ => exact .inr ⟨key, nonce, hkey, rfl⟩
  next => exact .inl rfl

theorem hostMixKey_some {data : List UInt8} {self : NoiseIKInitiator} {ck key : Key}
    (h : lib.extractExpand self.ck data = some (ck, key)) :
    hostMixKey lib data self = .ok () { self with ck := ck, key := some key, nonce := 0 } := by
  unfold Crypto.extractExpand at h
  rw [hostMixKey, h]

theorem hostMixKey_none {data : List UInt8} {self : NoiseIKInitiator}
    (h : lib.extractExpand self.ck data = none) :
    hostMixKey lib data self = .error .library self := by
  unfold Crypto.extractExpand at h
  rw [hostMixKey, h]

theorem split_some {self : NoiseIKInitiator} {first second : Key}
    (h : lib.extractExpand self.ck [] = some (first, second)) :
    split lib self = .ok () { self with
      sendKey := some first
      receiveKey := some second
      sendNonce := 0
      receiveNonce := 0
      key := none } := by
  unfold Crypto.extractExpand at h
  rw [split, h]

theorem split_none {self : NoiseIKInitiator} (h : lib.extractExpand self.ck [] = none) :
    split lib self = .error .library self := by
  unfold Crypto.extractExpand at h
  rw [split, h]

-- ====================================================== what logging keeps

theorem mixDh_logged (priv pub : Key) :
    Projects (loggedMixDh lib priv pub) (mixDh lib priv pub) :=
  (projects_record _ _).bind fun _ => projects_record _ _

theorem readInitiator_logged (priv : Key) (message : List UInt8) :
    Projects (loggedReadInitiator lib priv message) (readInitiator lib priv message) :=
  (projects_record _ _).bind fun _ => (mixDh_logged _ _).bind fun _ => projects_record _ _

theorem identifyInitiator_logged (message : List UInt8) :
    Projects (loggedIdentifyInitiator lib message) (identifyInitiator lib message) :=
  (projects_record _ _).bind fun _ => (projects_record _ _).bind fun _ =>
    (readInitiator_logged _ _).bind fun _ => projects_record _ _

theorem writeResponse_logged (priv initiatorStatic initiatorEph : Key)
    (responderEph : Option (Key × Key)) :
    Projects (loggedWriteResponse lib priv initiatorStatic initiatorEph responderEph)
      (writeResponse lib priv initiatorStatic initiatorEph responderEph) :=
  (mixDh_logged _ _).bind fun _ => (projects_record _ _).bind fun _ =>
    (projects_record _ _).bind fun _ => (mixDh_logged _ _).bind fun _ =>
      (mixDh_logged _ _).bind fun _ => (projects_record _ _).bind fun _ => projects_record _ _

/-- A logged handshake of the device is its handshake. -/
theorem handshakeBody_logged (controllers : ControllerStore)
    (responderEph : Option (Key × Key)) (message : List UInt8) :
    Projects (loggedHandshakeBody lib controllers responderEph message)
      (handshakeBody lib controllers responderEph message) :=
  (identifyInitiator_logged _).bind fun _ => (projects_record _ _).bind fun _ =>
    (projects_record _ _).bind fun _ => (writeResponse_logged _ _ _ _).bind fun _ =>
      (projects_record _ _).bind fun _ => projects_record _ _

theorem hostMixDh_logged (priv pub : Key) :
    Projects (loggedHostMixDh lib priv pub) (hostMixDh lib priv pub) :=
  (projects_record _ _).bind fun _ => projects_record _ _

/-- A logged first message is the first message. -/
theorem beginHandshake_logged (ephPriv : Key) :
    Projects (loggedBeginHandshake lib ephPriv) (beginHandshake lib ephPriv) :=
  (projects_record _ _).bind fun _ => (projects_record _ _).bind fun _ =>
    (projects_record _ _).bind fun _ =>
      ((projects_record _ _).bind fun _ => (hostMixDh_logged _ _).bind fun _ =>
        (projects_record _ _).bind fun _ => (hostMixDh_logged _ _).bind fun _ =>
          Projects.pure _).bind fun _ => Projects.pure _

theorem readResponder_logged (staticPriv ephPriv responderEph : Key)
    (encryptedAck : List UInt8) :
    Projects (loggedReadResponder lib staticPriv ephPriv responderEph encryptedAck)
      (readResponder lib staticPriv ephPriv responderEph encryptedAck) :=
  (projects_record _ _).bind fun _ => (hostMixDh_logged _ _).bind fun _ =>
    (hostMixDh_logged _ _).bind fun _ => projects_record _ _

/-- A logged completion is the completion. -/
theorem completeHandshake_logged (response : List UInt8) :
    Projects (loggedCompleteHandshake lib response) (completeHandshake lib response) := by
  refine (projects_record _ _).bind fun self => ?_
  cases self.ephPriv with
  | none => exact projects_throw _
  | some ephPriv =>
      refine Projects.ite (projects_throw _) ?_
      refine (readResponder_logged _ _ _ _).bind fun ack => ?_
      exact Projects.ite (projects_throw _) (projects_record _ _)

-- ============================================================ the parties

/-- The device and the host object, if one has been made. -/
structure Parties where
  device : NoiseIkCtx
  host : Option NoiseIKInitiator

/-- A call of either side, with everything the environment supplies. -/
inductive PartyCall
  | respond (controllers : ControllerStore) (responderEph : Option (Key × Key))
      (message : List UInt8) (responseCap : Nat)
  | decrypt (packet : List UInt8) (plaintextCap : Nat)
  | receipt (commandStatus : UInt8) (packetCap : Nat)
  | connect (initiatorPrivate devicePublic : Key)
  | begin (ephPriv : Key)
  | complete (response : List UInt8)
  | encrypt (plaintext : List UInt8)
  | verify (packet : List UInt8)

variable (lib) in
/-- The calls `noise_ik_handshake_respond` makes. -/
def respondHistory (controllers : ControllerStore) (responderEph : Option (Key × Key))
    (message : List UInt8) (responseCap : Nat) (ctx : NoiseIkCtx) : History :=
  if message.length ≠ noiseIkInitMessageLen ∨ responseCap < noiseIkResponseLen then []
  else added (loggedHandshakeBody lib controllers responderEph message) ctx

/-- A method of the host object. -/
def Parties.hostRuns {α : Type} (s : Parties) (x : Host α) (x' : LoggedHost α) :
    Parties × History :=
  match s.host with
  | none => (s, [])
  | some self => ({ s with host := some (leaves x self) }, added x' self)

variable (lib) in
/-- Both sides, call after call. -/
def parties : Machine Parties PartyCall (Event Party Key (List UInt8)) where
  step s
    | .respond controllers responderEph message responseCap =>
        ({ s with
            device := (noiseIkHandshakeRespond lib controllers responderEph message responseCap
              s.device).2 },
          respondHistory lib controllers responderEph message responseCap s.device)
    | .decrypt packet plaintextCap =>
        ({ s with device := leaves (noiseDecryptPacket lib packet plaintextCap) s.device },
          added (loggedDecryptPacket lib packet plaintextCap) s.device)
    | .receipt commandStatus packetCap =>
        ({ s with
            device := leaves (noiseEncryptTransportAck lib commandStatus packetCap) s.device },
          added (loggedEncryptTransportAck lib commandStatus packetCap) s.device)
    | .connect initiatorPrivate devicePublic =>
        match NoiseIKInitiator.new lib initiatorPrivate devicePublic with
        | some host => ({ s with host := some host }, [])
        | none => (s, [])
    | .begin ephPriv => s.hostRuns (beginHandshake lib ephPriv) (loggedBeginHandshake lib ephPriv)
    | .complete response =>
        s.hostRuns (completeHandshake lib response) (loggedCompleteHandshake lib response)
    | .encrypt plaintext =>
        s.hostRuns (encryptPacket lib plaintext) (loggedEncryptPacket lib plaintext)
    | .verify packet =>
        s.hostRuns (verifyTransportAck lib packet) (loggedVerifyTransportAck lib packet)

end PicoBridge
