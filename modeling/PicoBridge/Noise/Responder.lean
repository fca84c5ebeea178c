/-
`firmware/noise_ik.c`: the device's side of the handshake and of the
transport.

# What is modelled how

- `nctx` is `NoiseIkCtx`. A C function that returns an `int` and works on
  it is a procedure (`Noise`): a nonzero code is an error, and the state
  keeps what was written before it.
- The trust store behind `nctx.controllers` belongs to `bridge_main.c`;
  here the pointer is only known to be set or null, and the roster is an
  argument of the handshake.
- `x25519_keypair` draws its key from the RNG: the pair, or none where it
  fails, is an argument of the handshake.
- No caller passes a null buffer pointer; the wiping of stack buffers has
  no reader and is left out.
- `noise_ik_handshake_respond` is cut in two at its roster scan, which
  leaves the static key it decrypted visible (`identifyInitiator`).
-/
import PicoBridge.Noise.Crypto
import PicoBridge.Store.Roster

namespace PicoBridge

open Lib.Procedure (ofOption ofOption_eq_ok bind_ok bind_error bind_eq_ok pure_eq_ok
  Simulates)

-- =========================================================== constants

def noiseIkKeyLen : Nat := 32
def noiseIkTagLen : Nat := 16
def noiseIkInitMessageLen : Nat := 80
def noiseIkResponseLen : Nat := 53
def noiseIkTransportNonceLen : Nat := 8
def noiseIkTransportOverhead : Nat := noiseIkTransportNonceLen + noiseIkTagLen
def noiseIkTransportAckLen : Nat := 6
def noiseIkTransportResponseLen : Nat := noiseIkTransportOverhead + noiseIkTransportAckLen
def noiseIkMaxPlaintext : Nat := 1038
def uint64Max : UInt64 := 0xffffffffffffffff

/-- `ik_protocol_name`: "Noise_IK_25519_ChaChaPoly_SHA256". -/
def ikProtocolName : List UInt8 :=
  [78, 111, 105, 115, 101, 95, 73, 75, 95, 50, 53, 53, 49, 57, 95, 67,
   104, 97, 67, 104, 97, 80, 111, 108, 121, 95, 83, 72, 65, 50, 53, 54]

/-- `ik_ack`: "PBIK1". -/
def ikAck : List UInt8 := [80, 66, 73, 75, 49]

/-- The receipt's text: "PBOK1". -/
def transportAck : List UInt8 := [80, 66, 79, 75, 49]

-- ============================================================ the state

/-- `noise_ik_ctx_t`. -/
structure NoiseIkCtx where
  deviceStaticPriv : Key
  deviceStaticPub : Key
  controllersSet : Bool
  authenticatedSlot : Nat
  authenticatedRole : UInt8
  key : Key
  receiveKey : Key
  sendKey : Key
  ck : Key
  h : Key
  nonceCounter : UInt64
  receiveNonce : UInt64
  sendNonce : UInt64
  ready : Bool

/-- The zeroed state. -/
def noiseIkCtxZero : NoiseIkCtx where
  deviceStaticPriv := zeroKey
  deviceStaticPub := zeroKey
  controllersSet := false
  authenticatedSlot := 0
  authenticatedRole := 0
  key := zeroKey
  receiveKey := zeroKey
  sendKey := zeroKey
  ck := zeroKey
  h := zeroKey
  nonceCounter := 0
  receiveNonce := 0
  sendNonce := 0
  ready := false

/-- A C function that returns 0 or an error code and works on `nctx`. -/
abbrev Noise (α : Type) := EStateM Unit NoiseIkCtx α

variable (lib : Crypto)

-- ====================================================== the handshake cipher

/-- `mix_hash`. -/
def mixHash (data : List UInt8) : Noise Unit := fun ctx =>
  if data.length > noiseIkInitMessageLen then .error () ctx
  else
    match lib.sha256 (ctx.h.toList ++ data) with
    | some h => .ok () { ctx with h := h }
    | none => .error () ctx

/-- `mix_key`. -/
def mixKey (data : List UInt8) : Noise Unit := fun ctx =>
  match lib.hkdf ctx.ck data with
  | some (ck, key) => .ok () { ctx with ck := ck, key := key, nonceCounter := 0 }
  | none => .error () ctx

/-- `x25519_dh`. -/
def x25519Dh (priv pub : Key) : Option Key := lib.scalarmult (clamp priv) pub

/-- `x25519_dh` with `mix_key` on its result. -/
def mixDh (priv pub : Key) : Noise Unit := do
  let shared ← ofOption () (x25519Dh lib priv pub)
  mixKey lib shared.toList

/-- `cipher_encrypt_and_hash`: the ciphertext with its tag. -/
def cipherEncryptAndHash (plaintext : List UInt8) : Noise (List UInt8) := fun ctx =>
  if ctx.nonceCounter = uint64Max then .error () ctx
  else
    match lib.encrypt ctx.key (noiseNonce ctx.nonceCounter) ctx.h.toList plaintext with
    | none => .error () ctx
    | some out =>
        (do mixHash lib out; pure out : Noise (List UInt8))
          { ctx with nonceCounter := ctx.nonceCounter + 1 }

/-- `cipher_decrypt_and_hash`. -/
def cipherDecryptAndHash (encrypted : List UInt8) : Noise (List UInt8) := fun ctx =>
  if encrypted.length < noiseIkTagLen ∨ ctx.nonceCounter = uint64Max then .error () ctx
  else
    match lib.decrypt ctx.key (noiseNonce ctx.nonceCounter) ctx.h.toList encrypted with
    | none => .error () ctx
    | some out =>
        (do mixHash lib encrypted; pure out : Noise (List UInt8))
          { ctx with nonceCounter := ctx.nonceCounter + 1 }

/-- `split_transport`. -/
def splitTransport : Noise Unit := fun ctx =>
  match lib.hkdf ctx.ck [] with
  | some (k1, k2) =>
      .ok () { ctx with
        receiveKey := k1
        sendKey := k2
        receiveNonce := 0
        sendNonce := 0
        key := zeroKey }
  | none => .error () ctx

-- =========================================================== the handshake

/-- `reset_handshake_state` up to its hashing. -/
def NoiseIkCtx.cleared (ctx : NoiseIkCtx) : NoiseIkCtx :=
  { ctx with
    ready := false
    authenticatedSlot := controllerStoreSlotCount
    authenticatedRole := controllerRoleNone
    nonceCounter := 0
    receiveNonce := 0
    sendNonce := 0
    key := zeroKey
    receiveKey := zeroKey
    sendKey := zeroKey }

/-- `reset_handshake_state`. -/
def resetHandshakeState : Noise Unit := fun ctx =>
  match lib.sha256 ikProtocolName with
  | some h => mixHash lib ctx.deviceStaticPub.toList { ctx.cleared with h := h, ck := h }
  | none => .error () ctx.cleared

/-- `noise_ik_init`, from any state of `nctx`. -/
def noiseIkInit (deviceStaticPrivate : Key) : EStateM.Result Unit NoiseIkCtx Unit :=
  let ctx := { noiseIkCtxZero with
    controllersSet := true, deviceStaticPriv := deviceStaticPrivate }
  match x25519Dh lib deviceStaticPrivate basepoint with
  | none => .error () ctx
  | some pub => resetHandshakeState lib { ctx with deviceStaticPub := pub }

/-- The roster loop of `noise_ik_handshake_respond`: every slot is looked
at, the first match is kept. -/
def scanRoster (controllers : ControllerStore) (initiatorStatic : Key) :
    Option (Fin 5 × UInt8) :=
  (List.finRange 5).foldl
    (fun matched i =>
      if ((controllers.slots i).role ≠ controllerRoleNone ∧
          ctEqual initiatorStatic (controllers.slots i).publicKey) ∧ matched = none then
        some (i, (controllers.slots i).role)
      else matched) none

/-- `e, es, s` of the initiator's message. -/
def readInitiator (priv : Key) (message : List UInt8) : Noise (List UInt8) := do
  mixHash lib (message.take noiseIkKeyLen)
  mixDh lib priv (keyAt message 0)
  cipherDecryptAndHash lib (message.drop noiseIkKeyLen)

/-- `noise_ik_handshake_respond` from its reset to the roster loop: the
initiator's static key. -/
def identifyInitiator (message : List UInt8) : Noise Key := do
  resetHandshakeState lib
  let plaintext ← readInitiator lib (← get).deviceStaticPriv message
  if plaintext.length ≠ noiseIkKeyLen ∨ ¬(← get).controllersSet then throw ()
  pure (keyAt plaintext 0)

/-- `ss, e, ee, se` and the response. -/
def writeResponse (priv initiatorStatic initiatorEph : Key)
    (responderEph : Option (Key × Key)) : Noise (List UInt8) := do
  mixDh lib priv initiatorStatic
  let (ephPriv, ephPub) ← ofOption () responderEph
  mixHash lib ephPub.toList
  mixDh lib ephPriv initiatorEph
  mixDh lib ephPriv initiatorStatic
  let ack ← cipherEncryptAndHash lib ikAck
  if ack.length ≠ noiseIkResponseLen - noiseIkKeyLen then throw ()
  pure (ephPub.toList ++ ack)

/-- `noise_ik_handshake_respond` between its argument check and `done`. -/
def handshakeBody (controllers : ControllerStore) (responderEph : Option (Key × Key))
    (message : List UInt8) : Noise (List UInt8) := do
  let initiatorStatic ← identifyInitiator lib message
  let (slot, role) ← ofOption () (scanRoster controllers initiatorStatic)
  let response ← writeResponse lib (← get).deviceStaticPriv initiatorStatic
    (keyAt message 0) responderEph
  splitTransport lib
  modify fun ctx =>
    { ctx with authenticatedSlot := slot, authenticatedRole := role, ready := true }
  pure response

/-- The state a procedure leaves, whatever it returns. -/
def Noise.leaves {α : Type} (x : Noise α) (ctx : NoiseIkCtx) : NoiseIkCtx :=
  match x ctx with
  | .ok _ ctx => ctx
  | .error _ ctx => ctx

/-- `noise_ik_handshake_respond`: the response, none where it returns an
error, and the session state. -/
def noiseIkHandshakeRespond (controllers : ControllerStore)
    (responderEph : Option (Key × Key)) (message : List UInt8) (responseCap : Nat)
    (ctx : NoiseIkCtx) : Option (List UInt8) × NoiseIkCtx :=
  if message.length ≠ noiseIkInitMessageLen ∨ responseCap < noiseIkResponseLen then
    (none, ctx)
  else
    match handshakeBody lib controllers responderEph message ctx with
    | .ok response ctx => (some response, ctx)
    | .error _ ctx => (none, (resetHandshakeState lib).leaves ctx)

-- =========================================================== the transport

/-- `noise_decrypt_packet`. -/
def noiseDecryptPacket (packet : List UInt8) (plaintextCap : Nat) : Noise (List UInt8) :=
  fun ctx =>
    if ¬ctx.ready ∨ packet.length < noiseIkTransportOverhead ∨ ctx.receiveNonce = uint64Max
    then .error () ctx
    else if packet.length - noiseIkTransportOverhead > plaintextCap ∨
        packet.length - noiseIkTransportOverhead > noiseIkMaxPlaintext then .error () ctx
    else if leValue (packet.take noiseIkTransportNonceLen) ≠ ctx.receiveNonce.toNat then
      .error () ctx
    else
      match lib.decrypt ctx.receiveKey (noiseNonce ctx.receiveNonce) []
          (packet.drop noiseIkTransportNonceLen) with
      | none => .error () ctx
      | some plaintext => .ok plaintext { ctx with receiveNonce := ctx.receiveNonce + 1 }

/-- `noise_encrypt_transport_ack`. -/
def noiseEncryptTransportAck (commandStatus : UInt8) (packetCap : Nat) :
    Noise (List UInt8) := fun ctx =>
  if ¬ctx.ready ∨ packetCap < noiseIkTransportResponseLen ∨ ctx.sendNonce = uint64Max then
    .error () ctx
  else
    match lib.encrypt ctx.sendKey (noiseNonce ctx.sendNonce) []
        (transportAck ++ [commandStatus]) with
    | none => .error () ctx
    | some sealed =>
        .ok (((List.range 8).map fun i => (ctx.sendNonce >>> UInt64.ofNat (8 * i)).toUInt8)
            ++ sealed)
          { ctx with sendNonce := ctx.sendNonce + 1 }

/-- `noise_authenticated_slot`. -/
def NoiseIkCtx.noiseAuthenticatedSlot (ctx : NoiseIkCtx) : Nat :=
  if ctx.ready then ctx.authenticatedSlot else controllerStoreSlotCount

-- =========================================================== the roster scan

theorem foldl_first {α β : Type} (p : α → Prop) [DecidablePred p] (f : α → β) (l : List α) :
    ∀ m : Option β,
      l.foldl (fun m i => if p i ∧ m.isNone then some (f i) else m) m
        = m.or ((l.find? fun i => p i).map f) := by
  induction l with
  | nil =>
      intro m
      cases m <;> rfl
  | cons a l ih =>
      intro m
      rw [List.foldl_cons, ih]
      cases m with
      | some b => simp
      | none =>
          by_cases h : p a
          · simp [h]
          · simp [h]

/-- The loop finds what `controller_store_find` finds. -/
theorem scanRoster_eq (controllers : ControllerStore) (initiatorStatic : Key) :
    scanRoster controllers initiatorStatic
      = (controllerStoreFind controllers initiatorStatic).toOption := by
  have hct : ∀ i, (ctEqual initiatorStatic (controllers.slots i).publicKey = true)
      = (ctEqual (controllers.slots i).publicKey initiatorStatic = true) := by
    intro i
    rw [ctEqual_iff, ctEqual_iff]
    exact propext eq_comm
  have hscan : scanRoster controllers initiatorStatic
      = ((List.finRange 5).find? fun i => (controllers.slots i).used ∧
          ctEqual (controllers.slots i).publicKey initiatorStatic).map
            fun i => (i, (controllers.slots i).role) := by
    have h := foldl_first
      (fun i => (controllers.slots i).used ∧
        ctEqual (controllers.slots i).publicKey initiatorStatic)
      (fun i => (i, (controllers.slots i).role)) (List.finRange 5) none
    rw [Option.none_or] at h
    rw [← h, scanRoster]
    simp only [hct, Option.isNone_iff_eq_none, ControllerSlot.used]
  rw [hscan]
  unfold controllerStoreFind
  cases (List.finRange 5).find? _ <;> rfl

theorem scanRoster_eq_some {controllers : ControllerStore} {key : Key}
    {r : Fin 5 × UInt8} :
    scanRoster controllers key = some r ↔ controllerStoreFind controllers key = .ok r := by
  rw [scanRoster_eq]
  cases controllerStoreFind controllers key with
  | ok r' => exact ⟨fun h => (by cases h; rfl), fun h => (by cases h; rfl)⟩
  | error e => exact ⟨fun h => (by cases h), fun h => (by cases h)⟩

-- ============================================================== the failures

variable {lib}

theorem mixHash_ready {data : List UInt8} {ctx : NoiseIkCtx} :
    ((mixHash lib data).leaves ctx).ready = ctx.ready := by
  unfold Noise.leaves mixHash
  split
  next h =>
    split at h
    · cases h
    · split at h <;> cases h
      rfl
  next h =>
    split at h
    · cases h
      rfl
    · split at h <;> cases h
      rfl

/-- A reset leaves no session, whether or not its hashing works. -/
theorem resetHandshakeState_ready (ctx : NoiseIkCtx) :
    ((resetHandshakeState lib).leaves ctx).ready = false := by
  unfold Noise.leaves resetHandshakeState
  cases lib.sha256 ikProtocolName with
  | none => rfl
  | some h => exact @mixHash_ready lib _ { ctx.cleared with h := h, ck := h }

/-- A handshake that fails past its argument check leaves no session. -/
theorem handshakeRespond_failed {controllers : ControllerStore}
    {responderEph : Option (Key × Key)} {message : List UInt8} {responseCap : Nat}
    {ctx ctx' : NoiseIkCtx}
    (hlen : message.length = noiseIkInitMessageLen) (hcap : noiseIkResponseLen ≤ responseCap)
    (h : noiseIkHandshakeRespond lib controllers responderEph message responseCap ctx
      = (none, ctx')) : ctx'.ready = false := by
  unfold noiseIkHandshakeRespond at h
  rw [if_neg (fun hor => hor.elim (fun hne => hne hlen) (by omega))] at h
  split at h
  · cases h
  · cases h
    exact resetHandshakeState_ready _

/-- The steps of a handshake that succeeds. -/
theorem handshakeRespond_steps {controllers : ControllerStore}
    {responderEph : Option (Key × Key)} {message response : List UInt8} {responseCap : Nat}
    {ctx ctx' : NoiseIkCtx}
    (h : noiseIkHandshakeRespond lib controllers responderEph message responseCap ctx
      = (some response, ctx')) :
    message.length = noiseIkInitMessageLen ∧
      ∃ initiatorStatic ctx₁ slot role ctx₂ ctx₃,
        identifyInitiator lib message ctx = .ok initiatorStatic ctx₁ ∧
        controllerStoreFind controllers initiatorStatic = .ok (slot, role) ∧
        writeResponse lib ctx₁.deviceStaticPriv initiatorStatic (keyAt message 0) responderEph ctx₁
          = .ok response ctx₂ ∧
        splitTransport lib ctx₂ = .ok () ctx₃ ∧
        ctx' = { ctx₃ with
          authenticatedSlot := slot, authenticatedRole := role, ready := true } := by
  unfold noiseIkHandshakeRespond at h
  split at h
  next => cases h
  next hlen =>
    rw [not_or, not_not] at hlen
    refine ⟨hlen.1, ?_⟩
    split at h
    next response' ctx'' hbody =>
      cases h
      unfold handshakeBody at hbody
      obtain ⟨key, ctx₁, hid, hbody⟩ := bind_eq_ok.mp hbody
      obtain ⟨⟨slot, role⟩, ctx₂, hscan, hbody⟩ := bind_eq_ok.mp hbody
      obtain ⟨hlisted, rfl⟩ := ofOption_eq_ok.mp hscan
      obtain ⟨_, ctx₃, hget, hbody⟩ := bind_eq_ok.mp hbody
      cases hget
      obtain ⟨written, ctx₄, hwrite, hbody⟩ := bind_eq_ok.mp hbody
      obtain ⟨_, ctx₅, hsplit, hbody⟩ := bind_eq_ok.mp hbody
      obtain ⟨_, ctx₆, hmod, hbody⟩ := bind_eq_ok.mp hbody
      obtain ⟨rfl, rfl⟩ := pure_eq_ok.mp hbody
      cases hmod
      exact ⟨key, ctx₁, slot, role, ctx₄, ctx₅, hid, scanRoster_eq_some.mp hlisted, hwrite,
        hsplit, rfl⟩
    next => cases h

/-- A handshake that succeeds decrypted a static key that the roster
lists, and has the key's slot and role. -/
theorem handshakeRespond_ok {controllers : ControllerStore}
    {responderEph : Option (Key × Key)} {message response : List UInt8} {responseCap : Nat}
    {ctx ctx' : NoiseIkCtx}
    (h : noiseIkHandshakeRespond lib controllers responderEph message responseCap ctx
      = (some response, ctx')) :
    message.length = noiseIkInitMessageLen ∧
      ∃ initiatorStatic ctx₁ slot role,
        identifyInitiator lib message ctx = .ok initiatorStatic ctx₁ ∧
        controllerStoreFind controllers initiatorStatic = .ok (slot, role) ∧
        ctx'.ready = true ∧ ctx'.authenticatedSlot = slot.val ∧
        ctx'.authenticatedRole = role := by
  obtain ⟨hlen, key, ctx₁, slot, role, ctx₂, ctx₃, hid, hfind, -, -, rfl⟩ :=
    handshakeRespond_steps h
  exact ⟨hlen, key, ctx₁, slot, role, hid, hfind, rfl, rfl, rfl⟩

end PicoBridge
