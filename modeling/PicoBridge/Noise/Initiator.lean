/-
`tools/pico_bridge_ctl.py`, class `NoiseIKInitiator`: the host's side of
the handshake and of the transport.

# What is modelled how

- The object is `NoiseIKInitiator` and a method is a procedure on it
  (`Host`): it may raise and keeps the attributes it had assigned. Python
  integers are `Nat`.
- `HostError` lists the places that raise; `HostError.text` is the text of
  the `NoiseHandshakeError` raised there. An exception of a library call
  that nothing catches is `library`.
- The identity file is read elsewhere: the constructor takes the two keys
  that `load_noise_identity` returns. The ephemeral private key that
  `begin_handshake` generates is its argument.
-/
import PicoBridge.Noise.Crypto
import PicoBridge.Store.Roster

namespace PicoBridge

open Lib.Procedure (ofOption)

-- =========================================================== constants

def cmdEncrypted : UInt8 := 6
def noiseResponseMessageLen : Nat := 53

/-- `NOISE_ACK`: b"PBIK1". -/
def noiseAck : List UInt8 := [80, 66, 73, 75, 49]

/-- `TRANSPORT_ACK`: b"PBOK1". -/
def hostTransportAck : List UInt8 := [80, 66, 79, 75, 49]

/-- `PROTO`: b"Noise_IK_25519_ChaChaPoly_SHA256". -/
def proto : List UInt8 :=
  [78, 111, 105, 115, 101, 95, 73, 75, 95, 50, 53, 53, 49, 57, 95, 67,
   104, 97, 67, 104, 97, 80, 111, 108, 121, 95, 83, 72, 65, 50, 53, 54]

-- ============================================================== errors

/-- Where a method raises. -/
inductive HostError
  | nonceExhausted
  | cipherKeyMissing
  | deviceAuthentication
  | responseLength
  | acknowledgement
  | notAuthenticated
  | missingReceipt
  | receiptNonce
  | invalidReceipt
  | unexpectedReceipt
  | rejected (status : UInt8)
  | library
  deriving DecidableEq, Repr

/-- The text of the `NoiseHandshakeError`. -/
def HostError.text : HostError → String
  | .nonceExhausted => "Noise nonce exhausted"
  | .cipherKeyMissing => "Noise cipher key missing"
  | .deviceAuthentication => "device authentication failed"
  | .responseLength => "unexpected Noise response length"
  | .acknowledgement => "device authentication acknowledgement mismatch"
  | .notAuthenticated => "Noise handshake is not authenticated"
  | .missingReceipt => "missing encrypted device receipt"
  | .receiptNonce => "unexpected device receipt nonce"
  | .invalidReceipt => "invalid encrypted device receipt"
  | .unexpectedReceipt => "unexpected encrypted device receipt"
  | .rejected status =>
      "device rejected bridge command (status=" ++ toString status.toNat ++ ")"
  | .library => ""

-- ============================================================ the object

/-- The attributes. `_h`, `_ck` and the rest keep their names without the
underscore. -/
structure NoiseIKInitiator where
  staticPriv : Key
  staticPub : Key
  devicePub : Key
  h : Key
  ck : Key
  key : Option Key
  nonce : Nat
  sendKey : Option Key
  receiveKey : Option Key
  sendNonce : Nat
  receiveNonce : Nat
  ephPriv : Option Key
  ephPub : Option Key

/-- A method: it returns or raises. -/
abbrev Host (α : Type) := EStateM HostError NoiseIKInitiator α

variable (lib : Crypto)

/-- `X25519PrivateKey.exchange`. -/
def exchange (priv pub : Key) : Option Key := lib.scalarmult (clamp priv) pub

/-- `X25519PrivateKey.public_key`. -/
def publicKey (priv : Key) : Option Key := lib.scalarmult (clamp priv) basepoint

/-- `_noise_nonce`. -/
def hostNoiseNonce (counter : Nat) : Option (List UInt8) :=
  if counter < 2 ^ 64 then some ([0, 0, 0, 0] ++ leBytes 8 counter) else none

/-- `_mix_hash`. -/
def hostMixHash (data : List UInt8) : Host Unit := fun self =>
  match lib.sha256 (self.h.toList ++ data) with
  | some h => .ok () { self with h := h }
  | none => .error .library self

/-- `_mix_key`. -/
def hostMixKey (data : List UInt8) : Host Unit := fun self =>
  match (do
    let prk ← lib.hmac self.ck data
    let t1 ← lib.hmac prk [1]
    let t2 ← lib.hmac prk (t1.toList ++ [2])
    some (t1, t2)) with
  | some (t1, t2) => .ok () { self with ck := t1, key := some t2, nonce := 0 }
  | none => .error .library self

/-- `exchange` with `_mix_key` on its result. -/
def hostMixDh (priv pub : Key) : Host Unit := do
  let shared ← ofOption .library (exchange lib priv pub)
  hostMixKey lib shared.toList

/-- `_encrypt_and_hash`. -/
def encryptAndHash (plaintext : List UInt8) : Host (List UInt8) := fun self =>
  match self.key with
  | none => .error .cipherKeyMissing self
  | some key =>
      match hostNoiseNonce self.nonce with
      | none => .error .nonceExhausted self
      | some nonce =>
          match lib.encrypt key nonce self.h.toList plaintext with
          | none => .error .library self
          | some ciphertext =>
              (do hostMixHash lib ciphertext; pure ciphertext : Host (List UInt8))
                { self with nonce := self.nonce + 1 }

/-- `_decrypt_and_hash`. -/
def decryptAndHash (ciphertext : List UInt8) : Host (List UInt8) := fun self =>
  match self.key with
  | none => .error .cipherKeyMissing self
  | some key =>
      match hostNoiseNonce self.nonce with
      | none => .error .nonceExhausted self
      | some nonce =>
          match lib.decrypt key nonce self.h.toList ciphertext with
          | none => .error .deviceAuthentication self
          | some plaintext =>
              (do hostMixHash lib ciphertext; pure plaintext : Host (List UInt8))
                { self with nonce := self.nonce + 1 }

/-- `_split`. -/
def split : Host Unit := fun self =>
  match (do
    let prk ← lib.hmac self.ck []
    let first ← lib.hmac prk [1]
    let second ← lib.hmac prk (first.toList ++ [2])
    some (first, second)) with
  | some (first, second) =>
      .ok () { self with
        sendKey := some first
        receiveKey := some second
        sendNonce := 0
        receiveNonce := 0
        key := none }
  | none => .error .library self

-- ========================================================== the handshake

/-- `__init__`, on the two keys of the identity file. -/
def NoiseIKInitiator.new (initiatorPrivate devicePublic : Key) : Option NoiseIKInitiator := do
  let staticPub ← publicKey lib initiatorPrivate
  let h ← lib.sha256 proto
  let h' ← lib.sha256 (h.toList ++ devicePublic.toList)
  some
    { staticPriv := initiatorPrivate
      staticPub := staticPub
      devicePub := devicePublic
      h := h'
      ck := h
      key := none
      nonce := 0
      sendKey := none
      receiveKey := none
      sendNonce := 0
      receiveNonce := 0
      ephPriv := none
      ephPub := none }

/-- `e, es, s, ss` of `begin_handshake`. -/
def writeInitiator (staticPriv staticPub ephPriv ephPub devicePub : Key) :
    Host (List UInt8) := do
  hostMixHash lib ephPub.toList
  hostMixDh lib ephPriv devicePub
  let encryptedStatic ← encryptAndHash lib staticPub.toList
  hostMixDh lib staticPriv devicePub
  pure encryptedStatic

/-- `begin_handshake`, with the generated key. -/
def beginHandshake (ephPriv : Key) : Host (List UInt8) := do
  let ephPub ← ofOption .library (publicKey lib ephPriv)
  modify fun self => { self with ephPriv := some ephPriv, ephPub := some ephPub }
  let self ← get
  let encryptedStatic ←
    writeInitiator lib self.staticPriv self.staticPub ephPriv ephPub self.devicePub
  pure (ephPub.toList ++ encryptedStatic)

/-- `e, ee, se` of `complete_handshake`. -/
def readResponder (staticPriv ephPriv responderEph : Key) (encryptedAck : List UInt8) :
    Host (List UInt8) := do
  hostMixHash lib responderEph.toList
  hostMixDh lib ephPriv responderEph
  hostMixDh lib staticPriv responderEph
  decryptAndHash lib encryptedAck

/-- `complete_handshake`. -/
def completeHandshake (response : List UInt8) : Host Unit := do
  let self ← get
  match self.ephPriv with
  | none => throw .responseLength
  | some ephPriv =>
      if response.length ≠ noiseResponseMessageLen then throw .responseLength
      let ack ← readResponder lib self.staticPriv ephPriv (keyAt response 0)
        (response.drop 32)
      if ack ≠ noiseAck then throw .acknowledgement
      split lib

/-- `is_ready`. -/
def NoiseIKInitiator.isReady (self : NoiseIKInitiator) : Bool :=
  self.sendKey.isSome && self.receiveKey.isSome

-- =========================================================== the transport

/-- `encrypt_packet`. -/
def encryptPacket (plaintext : List UInt8) : Host (List UInt8) := fun self =>
  match self.sendKey, self.receiveKey with
  | some sendKey, some _ =>
      match hostNoiseNonce self.sendNonce with
      | none => .error .nonceExhausted self
      | some nonce =>
          match lib.encrypt sendKey nonce [] plaintext with
          | none => .error .library self
          | some ciphertext =>
              .ok ([cmdEncrypted] ++ leBytes 8 self.sendNonce ++ ciphertext)
                { self with sendNonce := self.sendNonce + 1 }
  | _, _ => .error .notAuthenticated self

/-- `verify_transport_ack`. A verified receipt with a status other than 0
raises `rejected`. -/
def verifyTransportAck (packet : List UInt8) : Host UInt8 := fun self =>
  match self.sendKey, self.receiveKey with
  | some _, some receiveKey =>
      if packet.length ≠ 1 + 8 + hostTransportAck.length + 1 + 16 ∨
          packet.getD 0 0 ≠ cmdEncrypted then .error .missingReceipt self
      else if leValue ((packet.drop 1).take 8) ≠ self.receiveNonce then
        .error .receiptNonce self
      else
        match hostNoiseNonce self.receiveNonce with
        | none => .error .nonceExhausted self
        | some nonce =>
            match lib.decrypt receiveKey nonce [] (packet.drop 9) with
            | none => .error .invalidReceipt self
            | some plaintext =>
                let self := { self with receiveNonce := self.receiveNonce + 1 }
                if plaintext.length ≠ hostTransportAck.length + 1 ∨
                    plaintext.take hostTransportAck.length ≠ hostTransportAck then
                  .error .unexpectedReceipt self
                else if plaintext.getLastD 0 ≠ 0 then
                  .error (.rejected (plaintext.getLastD 0)) self
                else .ok (plaintext.getLastD 0) self
  | _, _ => .error .missingReceipt self

/-- The host's nonce is the one the firmware writes. -/
theorem hostNoiseNonce_toNat (counter : UInt64) :
    hostNoiseNonce counter.toNat = some (noiseNonce counter) := by
  rw [hostNoiseNonce, if_pos counter.toNat_lt, noiseNonce_eq]

theorem hostNoiseNonce_eq_some {n : Nat} {nonce : List UInt8}
    (h : hostNoiseNonce n = some nonce) :
    ∃ counter : UInt64, n = counter.toNat ∧ nonce = noiseNonce counter := by
  unfold hostNoiseNonce at h
  split at h
  next hlt =>
    cases h
    have hn : (UInt64.ofNat n).toNat = n := UInt64.toNat_ofNat_of_lt' hlt
    refine ⟨UInt64.ofNat n, hn.symm, ?_⟩
    rw [noiseNonce_eq, hn]
  next => cases h

end PicoBridge
