/-
The host's and the device's side of the handshake agree: both are the
Noise IK pattern of `Lib.Noise`, over the same primitives.

# The argument

Each implementation simulates its side of the pattern: `CtxHolds` and
`HostHolds` say that the C globals and the Python attributes hold a
symmetric state, and every operation of either program does to them what
the pattern's operation does to it, touching nothing outside a frame. The
two sides of the pattern agree by the library's
`readFirst_writeFirst` and `readSecond_writeSecond`, so the two programs
do. A wrong pinned key separates the handshake hashes before the first
ciphertext, which then does not open.
-/
import PicoBridge.Noise.Responder
import PicoBridge.Noise.Initiator

namespace PicoBridge

open Lib.Procedure
open Lib.Noise (Symmetric)

variable {lib : Crypto}

-- ==================================================== the device's operations

/-- `nctx` holds a symmetric state. -/
structure CtxHolds (ctx : NoiseIkCtx) (t : Symmetric Key) : Prop where
  ck : ctx.ck = t.ck
  h : ctx.h = t.h
  nonce : ctx.nonceCounter = t.nonce
  key : ∀ key, t.key = some key → ctx.key = key

/-- The device's identity is the same. -/
structure CtxFrame (ctx ctx' : NoiseIkCtx) : Prop where
  priv : ctx'.deviceStaticPriv = ctx.deviceStaticPriv
  pub : ctx'.deviceStaticPub = ctx.deviceStaticPub
  set : ctx'.controllersSet = ctx.controllersSet

theorem CtxFrame.refl (ctx : NoiseIkCtx) : CtxFrame ctx ctx := ⟨rfl, rfl, rfl⟩

theorem CtxFrame.trans {a b c : NoiseIkCtx} (h : CtxFrame a b) (h' : CtxFrame b c) :
    CtxFrame a c :=
  ⟨h'.priv.trans h.priv, h'.pub.trans h.pub, h'.set.trans h.set⟩

theorem mixHash_ok {data : List UInt8} {ctx : NoiseIkCtx} {digest : Key}
    (hlen : data.length ≤ noiseIkInitMessageLen)
    (h : lib.sha256 (ctx.h.toList ++ data) = some digest) :
    mixHash lib data ctx = .ok () { ctx with h := digest } := by
  unfold mixHash
  rw [if_neg (Nat.not_lt.mpr hlen), h]

theorem mixHash_eq_ok {data : List UInt8} {ctx ctx' : NoiseIkCtx}
    (h : mixHash lib data ctx = .ok () ctx') : ∃ digest,
      lib.sha256 (ctx.h.toList ++ data) = some digest ∧ ctx' = { ctx with h := digest } := by
  unfold mixHash at h
  split at h
  · cases h
  · cases hsha : lib.sha256 (ctx.h.toList ++ data) with
    | none =>
        rw [hsha] at h
        cases h
    | some digest =>
        rw [hsha] at h
        cases h
        exact ⟨digest, rfl, rfl⟩

/-- Mixing in a key leaves the handshake hash. -/
theorem mixDh_h {priv pub : Key} {ctx ctx' : NoiseIkCtx}
    (h : mixDh lib priv pub ctx = .ok () ctx') : ctx'.h = ctx.h := by
  unfold mixDh at h
  obtain ⟨shared, ctx₁, hs, hk⟩ := bind_eq_ok.mp h
  obtain ⟨-, rfl⟩ := ofOption_eq_ok.mp hs
  unfold mixKey at hk
  split at hk
  · cases hk
    rfl
  · cases hk

theorem cipherDecryptAndHash_opens {encrypted out : List UInt8} {ctx ctx' : NoiseIkCtx}
    (h : cipherDecryptAndHash lib encrypted ctx = .ok out ctx') :
    ∃ key nonce, lib.decrypt key nonce ctx.h.toList encrypted = some out := by
  unfold cipherDecryptAndHash at h
  split at h
  next => cases h
  next =>
    split at h
    next => cases h
    next out' hopen =>
      obtain ⟨_, _, -, hp⟩ := bind_eq_ok.mp h
      obtain ⟨rfl, -⟩ := pure_eq_ok.mp hp
      exact ⟨_, _, hopen⟩

theorem ctx_mixHash {data : List UInt8} (hlen : data.length ≤ noiseIkInitMessageLen) :
    Simulates CtxHolds CtxFrame (mixHash lib data) (Lib.Noise.mixHash lib.suite data) := by
  intro ctx t _ t' hR h
  obtain ⟨d, hd, rfl⟩ := Lib.Noise.mixHash_eq_ok.mp h
  refine ⟨{ ctx with h := d }, ?_, ⟨hR.ck, rfl, hR.nonce, hR.key⟩, rfl, rfl, rfl⟩
  apply mixHash_ok hlen
  rw [hR.h]
  exact hd

theorem ctx_mixKey (data : List UInt8) :
    Simulates CtxHolds CtxFrame (mixKey lib data) (Lib.Noise.mixKey lib.suite data) := by
  intro ctx t _ t' hR h
  obtain ⟨⟨ck, key⟩, hk, rfl⟩ := Lib.Noise.mixKey_eq_ok.mp h
  refine ⟨{ ctx with ck := ck, key := key, nonceCounter := 0 }, ?_,
    ⟨rfl, hR.h, rfl, fun k hk => Option.some.inj hk⟩, rfl, rfl, rfl⟩
  have hkdf : lib.hkdf ctx.ck data = some (ck, key) := by
    rw [hR.ck]
    exact hk
  unfold mixKey
  rw [hkdf]

theorem ctx_mixDh (priv pub : Key) :
    Simulates CtxHolds CtxFrame (mixDh lib priv pub)
      (Lib.Noise.mixDh lib.suite priv pub) :=
  .bind .trans (.ofOption .refl fun _ h => h) fun shared => ctx_mixKey shared.toList

/-- The cipher operations hash what is on the wire, which `mix_hash` takes
up to 80 bytes of. -/
theorem ctx_encryptAndHash (hlib : lib.Lawful) {p : List UInt8}
    (hlen : p.length + 16 ≤ noiseIkInitMessageLen) :
    Simulates CtxHolds CtxFrame (cipherEncryptAndHash lib p)
      (Lib.Noise.encryptAndHash lib.suite p) := by
  intro ctx t c t' hR h
  obtain ⟨key, hkey, hn, hc, hm⟩ := Lib.Noise.cipherAndHash_eq_ok.mp h
  have hseal : lib.encrypt ctx.key (noiseNonce ctx.nonceCounter) ctx.h.toList p = some c := by
    rw [hR.key key hkey, hR.nonce, hR.h]
    exact hc
  have hclen : c.length ≤ noiseIkInitMessageLen := by
    rw [hlib.encrypt_length hseal]
    exact hlen
  obtain ⟨ctx', hmix, hR', hF⟩ := ctx_mixHash hclen
    { ctx with nonceCounter := ctx.nonceCounter + 1 } { t with nonce := t.nonce + 1 } () t'
    ⟨hR.ck, hR.h, congrArg (· + 1) hR.nonce, hR.key⟩ hm
  refine ⟨ctx', ?_, hR', hF.priv, hF.pub, hF.set⟩
  unfold cipherEncryptAndHash
  rw [if_neg (by rw [hR.nonce]; exact hn), hseal]
  dsimp only
  rw [bind_ok hmix]
  rfl

theorem ctx_decryptAndHash {c : List UInt8} (hlen : c.length ≤ noiseIkInitMessageLen)
    (htag : noiseIkTagLen ≤ c.length) :
    Simulates CtxHolds CtxFrame (cipherDecryptAndHash lib c)
      (Lib.Noise.decryptAndHash lib.suite c) := by
  intro ctx t p t' hR h
  obtain ⟨key, hkey, hn, hp, hm⟩ := Lib.Noise.cipherAndHash_eq_ok.mp h
  have hopen : lib.decrypt ctx.key (noiseNonce ctx.nonceCounter) ctx.h.toList c = some p := by
    rw [hR.key key hkey, hR.nonce, hR.h]
    exact hp
  obtain ⟨ctx', hmix, hR', hF⟩ := ctx_mixHash hlen
    { ctx with nonceCounter := ctx.nonceCounter + 1 } { t with nonce := t.nonce + 1 } () t'
    ⟨hR.ck, hR.h, congrArg (· + 1) hR.nonce, hR.key⟩ hm
  refine ⟨ctx', ?_, hR', hF.priv, hF.pub, hF.set⟩
  have hguard : ¬(c.length < noiseIkTagLen ∨ ctx.nonceCounter = uint64Max) := by
    rw [hR.nonce]
    exact fun hor => hor.elim (fun hlt => by omega) hn
  unfold cipherDecryptAndHash
  rw [if_neg hguard, hopen]
  dsimp only
  rw [bind_ok hmix]
  rfl

-- ====================================================== the host's operations

/-- The object holds a symmetric state. -/
structure HostHolds (host : NoiseIKInitiator) (t : Symmetric Key) : Prop where
  ck : host.ck = t.ck
  h : host.h = t.h
  nonce : host.nonce = t.nonce.toNat
  key : host.key = t.key

/-- The identity, the ephemeral key and the transport are the same. -/
structure HostFrame (host host' : NoiseIKInitiator) : Prop where
  staticPriv : host'.staticPriv = host.staticPriv
  ephPriv : host'.ephPriv = host.ephPriv
  sendKey : host'.sendKey = host.sendKey
  receiveKey : host'.receiveKey = host.receiveKey

theorem HostFrame.refl (host : NoiseIKInitiator) : HostFrame host host :=
  ⟨rfl, rfl, rfl, rfl⟩

theorem HostFrame.trans {a b c : NoiseIKInitiator} (h : HostFrame a b)
    (h' : HostFrame b c) : HostFrame a c :=
  ⟨h'.staticPriv.trans h.staticPriv, h'.ephPriv.trans h.ephPriv,
    h'.sendKey.trans h.sendKey, h'.receiveKey.trans h.receiveKey⟩

theorem host_mixHash (data : List UInt8) :
    Simulates HostHolds HostFrame (hostMixHash lib data)
      (Lib.Noise.mixHash lib.suite data) := by
  intro host t _ t' hR h
  obtain ⟨d, hd, rfl⟩ := Lib.Noise.mixHash_eq_ok.mp h
  refine ⟨{ host with h := d }, ?_, ⟨hR.ck, rfl, hR.nonce, hR.key⟩, rfl, rfl, rfl, rfl⟩
  have hsha : lib.sha256 (host.h.toList ++ data) = some d := by
    rw [hR.h]
    exact hd
  unfold hostMixHash
  rw [hsha]

/-- The host spells out the HKDF that the device calls. -/
theorem host_mixKey (hlib : lib.Lawful) (data : List UInt8) :
    Simulates HostHolds HostFrame (hostMixKey lib data)
      (Lib.Noise.mixKey lib.suite data) := by
  intro host t _ t' hR h
  obtain ⟨⟨ck, key⟩, hk, rfl⟩ := Lib.Noise.mixKey_eq_ok.mp h
  refine ⟨{ host with ck := ck, key := some key, nonce := 0 }, ?_,
    ⟨rfl, hR.h, rfl, rfl⟩, rfl, rfl, rfl, rfl⟩
  have hexpand : lib.extractExpand host.ck data = some (ck, key) := by
    rw [hR.ck, ← hlib.hkdf_rfc5869]
    exact hk
  unfold hostMixKey
  rw [show (do
    let prk ← lib.hmac host.ck data
    let t1 ← lib.hmac prk [1]
    let t2 ← lib.hmac prk (t1.toList ++ [2])
    some (t1, t2)) = lib.extractExpand host.ck data from rfl, hexpand]

theorem host_mixDh (hlib : lib.Lawful) (priv pub : Key) :
    Simulates HostHolds HostFrame (hostMixDh lib priv pub)
      (Lib.Noise.mixDh lib.suite priv pub) :=
  .bind .trans (.ofOption .refl fun _ h => h) fun shared => host_mixKey hlib shared.toList

theorem host_encryptAndHash (p : List UInt8) :
    Simulates HostHolds HostFrame (encryptAndHash lib p)
      (Lib.Noise.encryptAndHash lib.suite p) := by
  intro host t c t' hR h
  obtain ⟨key, hkey, hn, hc, hm⟩ := Lib.Noise.cipherAndHash_eq_ok.mp h
  have hseal : lib.encrypt key (noiseNonce t.nonce) host.h.toList p = some c := by
    rw [hR.h]
    exact hc
  obtain ⟨host', hmix, hR', hF⟩ := host_mixHash c { host with nonce := host.nonce + 1 }
    { t with nonce := t.nonce + 1 } () t'
    ⟨hR.ck, hR.h, by rw [hR.nonce]; exact (toNat_succ hn).symm, hR.key⟩ hm
  refine ⟨host', ?_, hR', hF.staticPriv, hF.ephPriv, hF.sendKey, hF.receiveKey⟩
  have hkey' : host.key = some key := hR.key.trans hkey
  have hnonce : hostNoiseNonce host.nonce = some (noiseNonce t.nonce) := by
    rw [hR.nonce, hostNoiseNonce_toNat]
  have hrun : encryptAndHash lib p host
      = (do hostMixHash lib c; pure c : Host (List UInt8))
          { host with nonce := host.nonce + 1 } := by
    simp only [encryptAndHash, hkey', hnonce, hseal]
  rw [hrun, bind_ok hmix]
  rfl

theorem host_decryptAndHash (c : List UInt8) :
    Simulates HostHolds HostFrame (decryptAndHash lib c)
      (Lib.Noise.decryptAndHash lib.suite c) := by
  intro host t p t' hR h
  obtain ⟨key, hkey, hn, hp, hm⟩ := Lib.Noise.cipherAndHash_eq_ok.mp h
  have hopen : lib.decrypt key (noiseNonce t.nonce) host.h.toList c = some p := by
    rw [hR.h]
    exact hp
  obtain ⟨host', hmix, hR', hF⟩ := host_mixHash c { host with nonce := host.nonce + 1 }
    { t with nonce := t.nonce + 1 } () t'
    ⟨hR.ck, hR.h, by rw [hR.nonce]; exact (toNat_succ hn).symm, hR.key⟩ hm
  refine ⟨host', ?_, hR', hF.staticPriv, hF.ephPriv, hF.sendKey, hF.receiveKey⟩
  have hkey' : host.key = some key := hR.key.trans hkey
  have hnonce : hostNoiseNonce host.nonce = some (noiseNonce t.nonce) := by
    rw [hR.nonce, hostNoiseNonce_toNat]
  have hrun : decryptAndHash lib c host
      = (do hostMixHash lib c; pure p : Host (List UInt8))
          { host with nonce := host.nonce + 1 } := by
    simp only [decryptAndHash, hkey', hnonce, hopen]
  rw [hrun, bind_ok hmix]
  rfl

-- ============================================================ the messages

theorem keyAt_toList_take {data : List UInt8} (h : 32 ≤ data.length) :
    (keyAt data 0).toList = data.take 32 := by
  apply List.ext_getElem
  · simp [h]
  · intro i h₁ h₂
    have hi : i < data.length := by
      simp at h₂
      omega
    simp [keyAt, hi]

theorem ctx_mixKeyBytes (key : Key) :
    Simulates CtxHolds CtxFrame (mixHash lib key.toList)
      (Lib.Noise.mixHash lib.suite (lib.suite.bytes key)) :=
  ctx_mixHash (by rw [toList_length]; decide)

/-- The device reading `e, es, s`. -/
theorem ctx_readInitiator (priv : Key) {message : List UInt8}
    (hlen : message.length = noiseIkInitMessageLen) :
    Simulates CtxHolds CtxFrame (readInitiator lib priv message)
      (Lib.Noise.readFirst lib.suite priv (keyAt message 0) (message.drop noiseIkKeyLen)) := by
  have htake : lib.suite.bytes (keyAt message 0) = message.take noiseIkKeyLen := by
    have h32 : 32 ≤ message.length := by
      rw [hlen]
      decide
    rw [suite_bytes]
    exact keyAt_toList_take h32
  have hdrop : (message.drop noiseIkKeyLen).length = 48 := by
    rw [List.length_drop, hlen]
    rfl
  have hmix : Simulates CtxHolds CtxFrame (mixHash lib (message.take noiseIkKeyLen))
      (Lib.Noise.mixHash lib.suite (lib.suite.bytes (keyAt message 0))) := by
    rw [htake]
    refine ctx_mixHash ?_
    rw [List.length_take, hlen]
    exact Nat.min_le_right _ _
  unfold readInitiator Lib.Noise.readFirst
  refine Simulates.bind .trans hmix fun _ => ?_
  refine Simulates.bind .trans (ctx_mixDh priv (keyAt message 0)) fun _ => ?_
  refine ctx_decryptAndHash ?_ ?_
  · rw [hdrop]
    decide
  · rw [hdrop]
    decide

/-- The device's `ss, e, ee, se` and acknowledgement. -/
theorem ctx_writeResponse (hlib : lib.Lawful) {priv initiatorStatic initiatorEph ephPriv
    ephPub : Key} {ctx : NoiseIkCtx} {t t' : Symmetric Key} {c : List UInt8}
    (hR : CtxHolds ctx t) (hc : c.length = 21)
    (h : Lib.Noise.writeSecond lib.suite priv initiatorStatic ephPriv ephPub initiatorEph
      ikAck t = .ok c t') :
    ∃ ctx', writeResponse lib priv initiatorStatic initiatorEph (some (ephPriv, ephPub)) ctx
        = .ok (ephPub.toList ++ c) ctx' ∧ CtxHolds ctx' t' ∧ CtxFrame ctx ctx' := by
  unfold Lib.Noise.writeSecond at h
  obtain ⟨_, t₁, hss, h⟩ := bind_eq_ok.mp h
  obtain ⟨_, t₂, he, h⟩ := bind_eq_ok.mp h
  obtain ⟨_, t₃, hee, h⟩ := bind_eq_ok.mp h
  obtain ⟨_, t₄, hse, h⟩ := bind_eq_ok.mp h
  obtain ⟨c₁, hc₁, hR₁, hF₁⟩ := ctx_mixDh _ _ ctx t () t₁ hR hss
  obtain ⟨c₂, hc₂, hR₂, hF₂⟩ := ctx_mixKeyBytes ephPub c₁ t₁ () t₂ hR₁ he
  obtain ⟨c₃, hc₃, hR₃, hF₃⟩ := ctx_mixDh _ _ c₂ t₂ () t₃ hR₂ hee
  obtain ⟨c₄, hc₄, hR₄, hF₄⟩ := ctx_mixDh _ _ c₃ t₃ () t₄ hR₃ hse
  obtain ⟨ctx', hc₅, hR', hF'⟩ :=
    ctx_encryptAndHash hlib (by decide) c₄ t₄ c t' hR₄ h
  refine ⟨ctx', ?_, hR', hF₁.trans (hF₂.trans (hF₃.trans (hF₄.trans hF')))⟩
  unfold writeResponse
  rw [bind_ok hc₁, bind_ok (ofOption_eq_ok.mpr ⟨rfl, rfl⟩)]
  dsimp only
  rw [bind_ok hc₂, bind_ok hc₃, bind_ok hc₄, bind_ok hc₅, if_neg]
  · rfl
  · rw [hc]
    decide

/-- The host's `e, es, s, ss`. -/
theorem host_writeInitiator (hlib : lib.Lawful) (staticPriv staticPub ephPriv ephPub
    devicePub : Key) :
    Simulates HostHolds HostFrame
      (writeInitiator lib staticPriv staticPub ephPriv ephPub devicePub)
      (Lib.Noise.writeFirst lib.suite staticPriv staticPub ephPriv ephPub devicePub) := by
  unfold writeInitiator Lib.Noise.writeFirst
  exact .bind .trans (host_mixHash _) fun _ => .bind .trans (host_mixDh hlib _ _) fun _ =>
    .bind .trans (host_encryptAndHash _) fun c => .bind .trans (host_mixDh hlib _ _) fun _ =>
      .pure .refl c

/-- The host reading `e, ee, se`. -/
theorem host_readResponder (hlib : lib.Lawful) (staticPriv ephPriv responderEph : Key)
    (encryptedAck : List UInt8) :
    Simulates HostHolds HostFrame
      (readResponder lib staticPriv ephPriv responderEph encryptedAck)
      (Lib.Noise.readSecond lib.suite staticPriv ephPriv responderEph encryptedAck) := by
  unfold readResponder Lib.Noise.readSecond
  exact .bind .trans (host_mixHash _) fun _ => .bind .trans (host_mixDh hlib _ _) fun _ =>
    .bind .trans (host_mixDh hlib _ _) fun _ => host_decryptAndHash _

-- ============================================================ the two ends

/-- The symmetric state before the first message, for a responder key. -/
def Crypto.start (lib : Crypto) (devicePub : Key) : Option (Symmetric Key) := do
  let h ← lib.sha256 proto
  let h' ← lib.sha256 (h.toList ++ devicePub.toList)
  some ⟨h, h', none, 0⟩

/-- The handshake hash once the initiator's ephemeral key is mixed in. -/
def Crypto.transcript (lib : Crypto) (devicePub ephPub : Key) : Option Key := do
  let t ← lib.start devicePub
  lib.sha256 (t.h.toList ++ ephPub.toList)

/-- `nctx` after `noise_ik_init` with a key pair, whatever sessions came
since. -/
structure Identity (ctx : NoiseIkCtx) (priv pub : Key) : Prop where
  priv : ctx.deviceStaticPriv = priv
  pub : ctx.deviceStaticPub = pub
  set : ctx.controllersSet = true

/-- The two ends of a session that has just been set up. -/
structure Paired (host : NoiseIKInitiator) (ctx : NoiseIkCtx) : Prop where
  ready : ctx.ready = true
  toDevice : host.sendKey = some ctx.receiveKey
  toHost : host.receiveKey = some ctx.sendKey
  hostSend : host.sendNonce = 0
  hostReceive : host.receiveNonce = 0
  deviceReceive : ctx.receiveNonce = 0
  deviceSend : ctx.sendNonce = 0

theorem start_returns (hlib : lib.Lawful) (devicePub : Key) :
    ∃ t, lib.start devicePub = some t := by
  obtain ⟨h, hh⟩ := hlib.sha256_returns proto
  obtain ⟨h', hh'⟩ := hlib.sha256_returns (h.toList ++ devicePub.toList)
  refine ⟨⟨h, h', none, 0⟩, ?_⟩
  simp only [Crypto.start, hh, hh', Option.bind_eq_bind, Option.bind_some]

theorem start_eq_some {devicePub : Key} {t : Symmetric Key} :
    lib.start devicePub = some t ↔ ∃ h h', lib.sha256 proto = some h ∧
      lib.sha256 (h.toList ++ devicePub.toList) = some h' ∧ t = ⟨h, h', none, 0⟩ := by
  simp only [Crypto.start, Option.bind_eq_bind, Option.bind_eq_some_iff, Option.some.injEq]
  constructor
  · rintro ⟨h, hh, h', hh', rfl⟩
    exact ⟨h, h', hh, hh', rfl⟩
  · rintro ⟨h, h', hh, hh', rfl⟩
    exact ⟨h, hh, h', hh', rfl⟩

/-- The device's reset starts the pattern with its own key. -/
theorem ctx_start {ctx : NoiseIkCtx} {t : Symmetric Key}
    (h : lib.start ctx.deviceStaticPub = some t) :
    ∃ ctx', resetHandshakeState lib ctx = .ok () ctx' ∧ CtxHolds ctx' t ∧
      CtxFrame ctx ctx' := by
  obtain ⟨h₀, h₁, hh₀, hh₁, rfl⟩ := start_eq_some.mp h
  refine ⟨{ ctx.cleared with h := h₁, ck := h₀ }, ?_, ⟨rfl, rfl, rfl, fun _ hk => by cases hk⟩,
    rfl, rfl, rfl⟩
  unfold resetHandshakeState
  rw [show lib.sha256 ikProtocolName = some h₀ from hh₀]
  exact @mixHash_ok lib _ { ctx.cleared with h := h₀, ck := h₀ } _
    (by rw [toList_length]; decide) hh₁

/-- A session's host object starts the pattern with the pinned key. -/
theorem host_start {s spub pin : Key} (hs : lib.KeyPair s spub) {t : Symmetric Key}
    (h : lib.start pin = some t) :
    ∃ host, NoiseIKInitiator.new lib s pin = some host ∧ HostHolds host t ∧
      host.staticPriv = s ∧ host.staticPub = spub ∧ host.devicePub = pin ∧
      host.sendKey = none := by
  obtain ⟨h₀, h₁, hh₀, hh₁, rfl⟩ := start_eq_some.mp h
  refine ⟨⟨s, spub, pin, h₁, h₀, none, 0, none, none, 0, 0, none, none⟩, ?_,
    ⟨rfl, rfl, rfl, rfl⟩, rfl, rfl, rfl, rfl⟩
  simp only [NoiseIKInitiator.new, publicKey, show lib.scalarmult (clamp s) basepoint
    = some spub from hs, hh₀, hh₁, Option.bind_eq_bind, Option.bind_some]

/-- `begin_handshake` is the pattern's first message. -/
theorem host_begin (hlib : lib.Lawful) {e epub : Key} (he : lib.KeyPair e epub)
    {host : NoiseIKInitiator} {t t' : Symmetric Key} {c : List UInt8} (hR : HostHolds host t)
    (h : Lib.Noise.writeFirst lib.suite host.staticPriv host.staticPub e epub host.devicePub t
      = .ok c t') :
    ∃ host', beginHandshake lib e host = .ok (epub.toList ++ c) host' ∧
      HostHolds host' t' ∧ host'.staticPriv = host.staticPriv ∧ host'.ephPriv = some e ∧
      host'.sendKey = host.sendKey := by
  have hpub : publicKey lib e = some epub := he
  obtain ⟨host', hw, hR', hF⟩ := host_writeInitiator hlib host.staticPriv host.staticPub e epub
    host.devicePub { host with ephPriv := some e, ephPub := some epub } t c t'
    ⟨hR.ck, hR.h, hR.nonce, hR.key⟩ h
  refine ⟨host', ?_, hR', hF.staticPriv, hF.ephPriv, hF.sendKey⟩
  unfold beginHandshake
  rw [bind_ok (ofOption_eq_ok.mpr ⟨hpub, rfl⟩)]
  show (_ >>= fun encryptedStatic => pure (epub.toList ++ encryptedStatic) : Host _) _ = _
  rw [bind_ok hw]
  rfl

/-- `complete_handshake` on the pattern's second message. -/
theorem host_complete (hlib : lib.Lawful) {s e epub' : Key} {host : NoiseIKInitiator}
    {t t' : Symmetric Key} {c : List UInt8} {k1 k2 : Key} (hR : HostHolds host t)
    (hs : host.staticPriv = s) (he : host.ephPriv = some e) (hc : c.length = 21)
    (h : Lib.Noise.readSecond lib.suite s e epub' c t = .ok ikAck t')
    (hsplit : Lib.Noise.split lib.suite t' = .ok (k1, k2) t') :
    ∃ host', completeHandshake lib (epub'.toList ++ c) host = .ok () host' ∧
      host'.sendKey = some k1 ∧ host'.receiveKey = some k2 ∧ host'.sendNonce = 0 ∧
      host'.receiveNonce = 0 := by
  obtain ⟨host₁, hr, hR₁, -⟩ := host_readResponder hlib s e epub' c host t ikAck t' hR h
  have hexpand : lib.extractExpand host₁.ck [] = some (k1, k2) := by
    rw [hR₁.ck, ← hlib.hkdf_rfc5869]
    exact (Lib.Noise.split_eq_ok.mp hsplit).1
  refine ⟨{ host₁ with
      sendKey := some k1, receiveKey := some k2, sendNonce := 0, receiveNonce := 0
      key := none }, ?_, rfl, rfl, rfl, rfl⟩
  have hlen : (epub'.toList ++ c).length = noiseResponseMessageLen := by
    rw [List.length_append, toList_length, hc]
    rfl
  have hdrop : (epub'.toList ++ c).drop 32 = c :=
    List.drop_left' (toList_length epub')
  have hsplit' : split lib host₁ = .ok () { host₁ with
      sendKey := some k1, receiveKey := some k2, sendNonce := 0, receiveNonce := 0
      key := none } := by
    unfold split
    rw [show (do
      let prk ← lib.hmac host₁.ck []
      let first ← lib.hmac prk [1]
      let second ← lib.hmac prk (first.toList ++ [2])
      some (first, second)) = lib.extractExpand host₁.ck [] from rfl, hexpand]
  unfold completeHandshake
  rw [bind_ok (show (get : Host _) host = .ok host host from rfl), he]
  dsimp only
  rw [if_neg (not_not.mpr hlen), keyAt_append, hdrop, hs, bind_ok hr,
    if_neg (not_not.mpr (show ikAck = noiseAck from rfl))]
  exact hsplit'

-- ======================================================== the device's answer

/-- The device finds the initiator's static key in a genuine message. -/
theorem ctx_identify {d D : Key} {ctx : NoiseIkCtx} (hctx : Identity ctx d D)
    {message : List UInt8} (hlen : message.length = noiseIkInitMessageLen)
    {t t₁ : Symmetric Key} {S : Key} (ht : lib.start D = some t)
    (h : Lib.Noise.readFirst lib.suite d (keyAt message 0) (message.drop noiseIkKeyLen) t
      = .ok S.toList t₁) :
    ∃ ctx₁, identifyInitiator lib message ctx = .ok S ctx₁ ∧ CtxHolds ctx₁ t₁ ∧
      CtxFrame ctx ctx₁ := by
  rw [← hctx.pub] at ht
  obtain ⟨c₀, hc₀, hR₀, hF₀⟩ := ctx_start ht
  obtain ⟨c₁, hc₁, hR₁, hF₁⟩ := ctx_readInitiator d hlen c₀ t S.toList t₁ hR₀ h
  refine ⟨c₁, ?_, hR₁, hF₀.trans hF₁⟩
  unfold identifyInitiator
  rw [bind_ok hc₀, bind_ok (show (get : Noise _) c₀ = .ok c₀ c₀ from rfl), hF₀.priv,
    hctx.priv, bind_ok hc₁, bind_ok (show (get : Noise _) c₁ = .ok c₁ c₁ from rfl), if_neg]
  · rw [keyAt_toList]
    rfl
  · rw [toList_length, hF₁.set, hF₀.set, hctx.set]
    decide

/-- … and answers it when the roster lists the key. -/
theorem ctx_respond (hlib : lib.Lawful) {d e' epub' : Key} {controllers : ControllerStore}
    {ctx ctx₁ : NoiseIkCtx} {message : List UInt8} {cap : Nat}
    (hlen : message.length = noiseIkInitMessageLen) (hcap : noiseIkResponseLen ≤ cap)
    {S : Key} {slot : Fin 5} {role : UInt8}
    (hfind : controllerStoreFind controllers S = .ok (slot, role))
    (hid : identifyInitiator lib message ctx = .ok S ctx₁) (hd : ctx₁.deviceStaticPriv = d)
    {t t' : Symmetric Key} (hR : CtxHolds ctx₁ t) {c : List UInt8} (hc : c.length = 21)
    (hw : Lib.Noise.writeSecond lib.suite d S e' epub' (keyAt message 0) ikAck t = .ok c t')
    {k1 k2 : Key} (hsplit : lib.hkdf t'.ck [] = some (k1, k2)) :
    ∃ ctx', noiseIkHandshakeRespond lib controllers (some (e', epub')) message cap ctx
        = (some (epub'.toList ++ c), ctx') ∧
      ctx'.ready = true ∧ ctx'.authenticatedSlot = slot.val ∧ ctx'.authenticatedRole = role ∧
      ctx'.receiveKey = k1 ∧ ctx'.sendKey = k2 ∧ ctx'.receiveNonce = 0 ∧ ctx'.sendNonce = 0 := by
  obtain ⟨c₂, hc₂, hR₂, -⟩ := ctx_writeResponse hlib hR hc hw
  rw [← hR₂.ck] at hsplit
  have hst : splitTransport lib c₂ = .ok () { c₂ with
      receiveKey := k1, sendKey := k2, receiveNonce := 0, sendNonce := 0, key := zeroKey } := by
    unfold splitTransport
    rw [hsplit]
  have hbody : handshakeBody lib controllers (some (e', epub')) message ctx
      = .ok (epub'.toList ++ c) { c₂ with
          receiveKey := k1, sendKey := k2, receiveNonce := 0, sendNonce := 0, key := zeroKey
          authenticatedSlot := slot, authenticatedRole := role, ready := true } := by
    unfold handshakeBody
    rw [bind_ok hid, bind_ok (ofOption_eq_ok.mpr ⟨scanRoster_eq_some.mpr hfind, rfl⟩)]
    dsimp only
    rw [bind_ok (show (get : Noise _) ctx₁ = .ok ctx₁ ctx₁ from rfl), hd, bind_ok hc₂,
      bind_ok hst]
    rfl
  refine ⟨{ c₂ with
      receiveKey := k1, sendKey := k2, receiveNonce := 0, sendNonce := 0, key := zeroKey
      authenticatedSlot := slot, authenticatedRole := role, ready := true }, ?_,
    rfl, rfl, rfl, rfl, rfl, rfl, rfl⟩
  unfold noiseIkHandshakeRespond
  rw [if_neg (fun hor => hor.elim (fun hne => hne hlen) (Nat.not_lt.mpr hcap)), hbody]

/-- A message the device decrypts was opened under its own handshake
hash. -/
theorem identifyInitiator_decrypts {message : List UInt8} {ctx ctx' : NoiseIkCtx} {S : Key}
    (hlen : message.length = noiseIkInitMessageLen)
    (h : identifyInitiator lib message ctx = .ok S ctx') :
    ∃ key nonce ad plaintext,
      lib.transcript ctx.deviceStaticPub (keyAt message 0) = some ad ∧
      lib.decrypt key nonce ad.toList (message.drop noiseIkKeyLen) = some plaintext := by
  have htake : message.take noiseIkKeyLen = (keyAt message 0).toList := by
    rw [keyAt_toList_take (by rw [hlen]; decide)]
    rfl
  unfold identifyInitiator at h
  obtain ⟨_, c₀, hreset, h⟩ := bind_eq_ok.mp h
  obtain ⟨_, c₀', hget, h⟩ := bind_eq_ok.mp h
  cases hget
  obtain ⟨plaintext, c₃, hread, -⟩ := bind_eq_ok.mp h
  unfold readInitiator at hread
  obtain ⟨_, c₁, hmix, hread'⟩ := bind_eq_ok.mp hread
  obtain ⟨_, c₂, hdh, hdecrypt⟩ := bind_eq_ok.mp hread'
  -- the three hashes, one after the other
  have hstart : lib.start ctx.deviceStaticPub = some ⟨c₀.ck, c₀.h, none, 0⟩ := by
    unfold resetHandshakeState at hreset
    cases hsha : lib.sha256 ikProtocolName with
    | none =>
        rw [hsha] at hreset
        cases hreset
    | some h₀ =>
        rw [hsha] at hreset
        obtain ⟨h₁, hh₁, rfl⟩ := mixHash_eq_ok hreset
        exact start_eq_some.mpr ⟨h₀, h₁, hsha, hh₁, rfl⟩
  rw [htake] at hmix
  obtain ⟨ad, had, rfl⟩ := mixHash_eq_ok hmix
  have hh : c₂.h = ad := mixDh_h hdh
  obtain ⟨key, nonce, hopen⟩ := cipherDecryptAndHash_opens hdecrypt
  rw [hh] at hopen
  refine ⟨key, nonce, ad, plaintext, ?_, hopen⟩
  simp only [Crypto.transcript, hstart, Option.bind_eq_bind, Option.bind_some, had]

-- =========================================================== the exchange

/-- A host object that has sent its first message, `E ‖ c`, with the
symmetric states before and after it. -/
structure Opened (lib : Crypto) (s S e E pin : Key) (c : List UInt8)
    (t t' : Symmetric Key) (host host' : NoiseIKInitiator) : Prop where
  created : NoiseIKInitiator.new lib s pin = some host
  started : lib.start pin = some t
  begun : beginHandshake lib e host = .ok (E.toList ++ c) host'
  written : Lib.Noise.writeFirst lib.suite s S e E pin t = .ok c t'
  holds : HostHolds host' t'
  staticPriv : host'.staticPriv = s
  ephPriv : host'.ephPriv = some e
  waiting : host'.isReady = false
  length : c.length = 48

section Exchange

variable {d D s S e E e' E' pin : Key} {c : List UInt8} {t t' : Symmetric Key}
  {host host' : NoiseIKInitiator} {controllers : ControllerStore} {ctx : NoiseIkCtx}
  {cap : Nat}

theorem host_opens (hlib : lib.Lawful) (hs : lib.KeyPair s S) (he : lib.KeyPair e E)
    (pin : Key) : ∃ c t t' host host', Opened lib s S e E pin c t t' host host' := by
  obtain ⟨t, ht⟩ := start_returns hlib pin
  obtain ⟨c, t', key, ad, hw, hseal⟩ :=
    Lib.Noise.writeFirst_returns hlib.returns s S e E pin t
  obtain ⟨host, hnew, hR, rfl, rfl, rfl, hnone⟩ := host_start hs ht
  obtain ⟨host', hbegin, hR', hs', he', hnone'⟩ := host_begin hlib he hR hw
  refine ⟨c, t, t', host, host', hnew, ht, hbegin, hw, hR', hs', he', ?_, ?_⟩
  · rw [NoiseIKInitiator.isReady, hnone', hnone]
    rfl
  · rw [hlib.encrypt_length hseal, suite_bytes, toList_length]

theorem Opened.message_length (h : Opened lib s S e E pin c t t' host host') :
    (E.toList ++ c).length = noiseIkInitMessageLen := by
  rw [List.length_append, toList_length, h.length]
  rfl

theorem drop_head (E : Key) (c : List UInt8) : (E.toList ++ c).drop noiseIkKeyLen = c :=
  List.drop_left' (toList_length E)

/-- What the host sealed under its transcript. -/
theorem Opened.sealed (h : Opened lib s S e E pin c t t' host host') :
    ∃ key nonce ad, lib.transcript pin E = some ad ∧
      lib.encrypt key nonce ad.toList S.toList = some c := by
  obtain ⟨key, ad, had, hseal⟩ := Lib.Noise.writeFirst_encrypts h.written
  refine ⟨key, noiseNonce 0, ad, ?_, hseal⟩
  simp only [Crypto.transcript, h.started, Option.bind_eq_bind, Option.bind_some]
  exact had

/-- A device that identifies nobody on its roster does not answer. -/
theorem respond_refuses (controllers : ControllerStore)
    (h : Opened lib s S e E pin c t t' host host') (hcap : noiseIkResponseLen ≤ cap)
    (responderEph : Option (Key × Key))
    (hno : ∀ key ctx₁, identifyInitiator lib (E.toList ++ c) ctx = .ok key ctx₁ →
      ¬∃ found, controllerStoreFind controllers key = .ok found) :
    (noiseIkHandshakeRespond lib controllers responderEph (E.toList ++ c) cap ctx).1 = none ∧
      (noiseIkHandshakeRespond lib controllers responderEph (E.toList ++ c) cap ctx).2.ready
        = false := by
  cases hr : noiseIkHandshakeRespond lib controllers responderEph (E.toList ++ c) cap ctx with
  | mk answer ctx' =>
      cases answer with
      | none => exact ⟨rfl, handshakeRespond_failed h.message_length hcap hr⟩
      | some response =>
          obtain ⟨-, key, ctx₁, slot, role, hid, hfind, -⟩ := handshakeRespond_ok hr
          exact absurd ⟨_, hfind⟩ (hno key ctx₁ hid)

/-- A device with the pinned key identifies the host, and is then, once
`ss` is mixed in, in the host's state. -/
theorem Opened.identified (h : Opened lib s S e E D c t t' host host') (hlib : lib.Lawful)
    (hd : lib.KeyPair d D) (hs : lib.KeyPair s S) (he : lib.KeyPair e E)
    (hctx : Identity ctx d D) :
    ∃ t₁ ctx₁, identifyInitiator lib (E.toList ++ c) ctx = .ok S ctx₁ ∧ CtxHolds ctx₁ t₁ ∧
      ctx₁.deviceStaticPriv = d ∧ Lib.Noise.mixDh lib.suite d S t₁ = .ok () t' := by
  obtain ⟨t₁, hread, hss⟩ := Lib.Noise.readFirst_writeFirst hlib.opens
    (hlib.dh_commutes e E d D he hd) (hlib.dh_commutes s S d D hs hd) h.written
  have hread' : Lib.Noise.readFirst lib.suite d (keyAt (E.toList ++ c) 0)
      ((E.toList ++ c).drop noiseIkKeyLen) t = .ok S.toList t₁ := by
    rw [keyAt_append, drop_head]
    exact hread
  obtain ⟨ctx₁, hid, hR, hF⟩ := ctx_identify hctx h.message_length h.started hread'
  exact ⟨t₁, ctx₁, hid, hR, hF.priv.trans hctx.priv, hss⟩

/-- A device with the pinned key and the host on its roster answers, and
the host completes on its answer. -/
theorem Opened.answered (h : Opened lib s S e E D c t t' host host') (hlib : lib.Lawful)
    (hd : lib.KeyPair d D) (hs : lib.KeyPair s S) (he : lib.KeyPair e E)
    (he' : lib.KeyPair e' E') (hctx : Identity ctx d D) (hcap : noiseIkResponseLen ≤ cap)
    {slot : Fin 5} {role : UInt8} (hfind : controllerStoreFind controllers S = .ok (slot, role)) :
    ∃ response ctx' host'',
      noiseIkHandshakeRespond lib controllers (some (e', E')) (E.toList ++ c) cap ctx
        = (some response, ctx') ∧ response.length = 53 ∧
      ctx'.authenticatedSlot = slot.val ∧ ctx'.authenticatedRole = role ∧
      completeHandshake lib response host' = .ok () host'' ∧ Paired host'' ctx' := by
  obtain ⟨t₁, ctx₁, hid, hR, hpriv, hss⟩ := h.identified hlib hd hs he hctx
  obtain ⟨ack, t₂, key, ad, hw, hseal⟩ :=
    Lib.Noise.writeSecond_returns hlib.returns d S e' E' E ikAck t₁
  have hack : ack.length = 21 := hlib.encrypt_length hseal
  obtain ⟨⟨k1, k2⟩, hsplit⟩ := Lib.Noise.split_returns hlib.returns t₂
  have hw' : Lib.Noise.writeSecond lib.suite d S e' E' (keyAt (E.toList ++ c) 0) ikAck t₁
      = .ok ack t₂ := by
    rw [keyAt_append]
    exact hw
  obtain ⟨ctx', hrespond, hready, hslot, hrole, hrk, hsk, hrn, hsn⟩ := ctx_respond hlib
    h.message_length hcap hfind hid hpriv hR hack hw' (Lib.Noise.split_eq_ok.mp hsplit).1
  have hreads := Lib.Noise.readSecond_writeSecond hlib.opens
    (hlib.dh_commutes e' E' e E he' he) (hlib.dh_commutes e' E' s S he' hs) hss hw
  obtain ⟨host'', hcomplete, hsend, hrecv, hsn', hrn'⟩ :=
    host_complete hlib h.holds h.staticPriv h.ephPriv hack hreads hsplit
  refine ⟨E'.toList ++ ack, ctx', host'', hrespond, ?_, hslot, hrole, hcomplete, hready,
    ?_, ?_, hsn', hrn', hrn, hsn⟩
  · rw [List.length_append, toList_length, hack]
  · rw [hsend, hrk]
  · rw [hrecv, hsk]

/-- A device with another key than the pinned one cannot open the message
if their transcripts differ and the ciphertext opens only as sealed. -/
theorem Opened.mispinned (h : Opened lib s S e E pin c t t' host host')
    (hctx : Identity ctx d D) (hhash : lib.transcript pin E ≠ lib.transcript D E)
    (hopens : lib.OpensAsSealed c) (key : Key) (ctx₁ : NoiseIkCtx) :
    identifyInitiator lib (E.toList ++ c) ctx ≠ .ok key ctx₁ := by
  intro hid
  obtain ⟨k, nonce, ad, hpin, hseal⟩ := h.sealed
  obtain ⟨k', nonce', ad', plaintext, hdev, hopen⟩ :=
    identifyInitiator_decrypts h.message_length hid
  rw [hctx.pub, keyAt_append] at hdev
  rw [drop_head] at hopen
  obtain ⟨-, -, hsame, -⟩ := hopens _ _ _ _ _ _ _ _ hseal hopen
  rw [Vector.toList_inj.mp hsame] at hdev
  exact hhash (hpin.trans hdev.symm)

end Exchange

-- ========================================================== concrete calls

/-- The xor of two keys. -/
def xorKey (a b : Key) : Key := Vector.zipWith (· ^^^ ·) a b

/-- The 32-byte blocks of up to 128 bytes, xored. -/
def foldKey (data : List UInt8) : Key :=
  Vector.ofFn fun i =>
    data.getD i 0 ^^^ data.getD (i + 32) 0 ^^^ data.getD (i + 64) 0 ^^^ data.getD (i + 96) 0

/-- A tag: zeros for the one marked use of the cipher, for any other use
a 1, the counter of the nonce and the head of the key. -/
def toyTag (mark : Option (Key × List UInt8 × List UInt8 × List UInt8)) (key : Key)
    (nonce ad plaintext : List UInt8) : List UInt8 :=
  if mark = some (key, nonce, ad, plaintext) then List.replicate 16 0
  else
    (List.range 16).map fun i =>
      if i = 0 then 1 else if i < 9 then nonce.getD (i + 3) 0 else key.toList.getD (i - 9) 0

/-- Library calls that keep the laws and can be run by hand. -/
def toyCrypto (mark : Option (Key × List UInt8 × List UInt8 × List UInt8)) : Crypto where
  sha256 data := some (foldKey data)
  hmac key data := some (xorKey key (foldKey data))
  hkdf salt ikm :=
    let prk := xorKey salt (foldKey ikm)
    let t1 := xorKey prk (foldKey [1])
    some (t1, xorKey prk (foldKey (t1.toList ++ [2])))
  scalarmult scalar point := some (xorKey scalar point)
  encrypt key nonce ad plaintext := some (plaintext ++ toyTag mark key nonce ad plaintext)
  decrypt key nonce ad ciphertext :=
    let plaintext := ciphertext.take (ciphertext.length - 16)
    if ciphertext.drop (ciphertext.length - 16) = toyTag mark key nonce ad plaintext then
      some plaintext
    else none

section Toy

variable {mark : Option (Key × List UInt8 × List UInt8 × List UInt8)}

theorem toyTag_length (key : Key) (nonce ad plaintext : List UInt8) :
    (toyTag mark key nonce ad plaintext).length = 16 := by
  unfold toyTag
  split <;> simp

theorem xorKey_left_comm (a b c : Key) : xorKey a (xorKey b c) = xorKey b (xorKey a c) := by
  ext i hi
  simp only [xorKey, Vector.getElem_zipWith]
  rw [← UInt8.xor_assoc, UInt8.xor_comm a[i], UInt8.xor_assoc]

theorem toy_decrypt_append (key : Key) (nonce ad plaintext tag : List UInt8)
    (htag : tag.length = 16) :
    (toyCrypto mark).decrypt key nonce ad (plaintext ++ tag)
      = if tag = toyTag mark key nonce ad plaintext then some plaintext else none := by
  have hlen : (plaintext ++ tag).length - 16 = plaintext.length := by
    rw [List.length_append, htag]
    omega
  show (if (plaintext ++ tag).drop ((plaintext ++ tag).length - 16)
      = toyTag mark key nonce ad ((plaintext ++ tag).take ((plaintext ++ tag).length - 16))
    then some ((plaintext ++ tag).take ((plaintext ++ tag).length - 16)) else none) = _
  rw [hlen, List.drop_left, List.take_left]

theorem toyCrypto_lawful : (toyCrypto mark).Lawful where
  sha256_returns data := ⟨_, rfl⟩
  hmac_returns key data := ⟨_, rfl⟩
  hkdf_rfc5869 salt ikm := rfl
  scalarmult_returns scalar point := ⟨_, rfl⟩
  dh_commutes a pubA b pubB ha hb := by
    obtain rfl := Option.some.inj ha
    obtain rfl := Option.some.inj hb
    exact congrArg some (xorKey_left_comm _ _ _)
  encrypt_returns key nonce ad plaintext :=
    ⟨_, rfl, by rw [List.length_append, toyTag_length]⟩
  decrypt_encrypt key nonce ad plaintext ciphertext h := by
    obtain rfl := Option.some.inj h
    rw [toy_decrypt_append _ _ _ _ _ (toyTag_length _ _ _ _), if_pos rfl]

/-- A ciphertext of the unmarked cipher opens only under its nonce. -/
theorem toy_opens {key : Key} {k n : UInt64} {p q : List UInt8}
    (h : (toyCrypto none).decrypt key (noiseNonce n) []
      (p ++ toyTag none key (noiseNonce k) [] p) = some q) : n = k ∧ q = p := by
  have hbytes : ∀ m : UInt64,
      ((toyTag none key (noiseNonce m) [] p).drop 1).take 8 = (noiseNonce m).drop 4 :=
    fun _ => rfl
  rw [toy_decrypt_append _ _ _ _ _ (toyTag_length _ _ _ _)] at h
  split at h
  next htag =>
    cases h
    have hdrop := congrArg (fun tag => [0, 0, 0, 0] ++ (tag.drop 1).take 8) htag
    rw [hbytes, hbytes] at hdrop
    exact ⟨(noiseNonce_inj hdrop).symm, rfl⟩
  next => cases h

/-- The marked ciphertext opens only as it was sealed. -/
theorem toyCrypto_opensAsSealed (m : Key × List UInt8 × List UInt8 × List UInt8) :
    (toyCrypto (some m)).OpensAsSealed (m.2.2.2 ++ List.replicate 16 0) := by
  obtain ⟨key, nonce, ad, plaintext⟩ := m
  have hmarked : ∀ k n a p,
      toyTag (some (key, nonce, ad, plaintext)) k n a p = List.replicate 16 0 →
        (key, nonce, ad, plaintext) = (k, n, a, p) := by
    intro k n a p h
    by_contra hne
    rw [toyTag, if_neg fun heq => hne (Option.some.inj heq)] at h
    have h0 : (1 : UInt8) = 0 := congrArg (fun l => l.getD 0 0) h
    exact absurd h0 (by decide)
  intro k n a p k' n' a' p' hseal hopen
  have hseal' := Option.some.inj hseal
  obtain ⟨rfl, htag⟩ := List.append_inj' hseal' (by rw [toyTag_length, List.length_replicate])
  rw [toy_decrypt_append _ _ _ _ _ List.length_replicate] at hopen
  split at hopen
  next htag' =>
    cases hopen
    have h := hmarked _ _ _ _ htag
    have h' := hmarked _ _ _ _ htag'.symm
    simp only [Prod.mk.injEq] at h h'
    obtain ⟨rfl, rfl, rfl, -⟩ := h
    obtain ⟨rfl, rfl, rfl, -⟩ := h'
    exact ⟨rfl, rfl, rfl, rfl⟩
  next => cases hopen

end Toy

/-- The public key of a private key under the concrete calls. -/
def toyPublic (priv : Key) : Key := xorKey (clamp priv) basepoint

/-- The use of the cipher in `begin_handshake` with private keys `s` and
`e` and a pinned key. -/
def toyMark (s e pin : Key) : Key × List UInt8 × List UInt8 × List UInt8 :=
  let h := foldKey proto
  let ad := foldKey ((foldKey (h.toList ++ pin.toList)).toList ++ (toyPublic e).toList)
  let prk := xorKey h (foldKey (xorKey (clamp e) pin).toList)
  let t1 := xorKey prk (foldKey [1])
  (xorKey prk (foldKey (t1.toList ++ [2])), noiseNonce 0, ad.toList, (toyPublic s).toList)

/-- The bytes after the ephemeral key of the first message of a host that
pins `pin`. -/
def toyCiphertext (mark : Option (Key × List UInt8 × List UInt8 × List UInt8))
    (s e pin : Key) : List UInt8 :=
  match NoiseIKInitiator.new (toyCrypto mark) s pin with
  | none => []
  | some host =>
      match beginHandshake (toyCrypto mark) e host with
      | .ok message _ => message.drop noiseIkKeyLen
      | .error _ _ => []

/-- A device's state before its first session. -/
def toyCtx (priv : Key) : NoiseIkCtx :=
  { noiseIkCtxZero with
    deviceStaticPriv := priv, deviceStaticPub := toyPublic priv, controllersSet := true }

/-- The recovery admin's key in slot 0 is the host's. -/
def toyRoster (s : Key) : ControllerStore := seededStore (toyPublic s)

-- ============================================================== agreement

/-- The host and the device agree. For every device key pair, initiator
key pair, ephemeral keys, roster and device session state, and every
pinned key: the host's first message exists; when the pinned key is the
device's, the device answers it exactly if `controller_store_find` knows
the initiator, with that slot and role, and the host then completes with
the device's keys crosswise and all four counters at 0; when the pinned
key is another one (whose transcript hash is another one, and the host's
ciphertext opens only as it was sealed) or the roster does not list the
initiator, the device does not answer and neither side is ready. -/
theorem handshake_agreement (hlib : lib.Lawful) {d D s S e E e' E' : Key}
    (hd : lib.KeyPair d D) (hs : lib.KeyPair s S) (he : lib.KeyPair e E)
    (he' : lib.KeyPair e' E') (controllers : ControllerStore) {ctx : NoiseIkCtx}
    (hctx : Identity ctx d D) {cap : Nat} (hcap : noiseIkResponseLen ≤ cap) (pin : Key) :
    ∃ host host' message, NoiseIKInitiator.new lib s pin = some host ∧
      beginHandshake lib e host = .ok message host' ∧
      let r := noiseIkHandshakeRespond lib controllers (some (e', E')) message cap ctx
      (pin = D → (r.1.isSome ↔ ∃ found, controllerStoreFind controllers S = .ok found) ∧
        ∀ slot role, controllerStoreFind controllers S = .ok (slot, role) →
          ∃ response host'', r.1 = some response ∧ response.length = 53 ∧
            r.2.authenticatedSlot = slot.val ∧ r.2.authenticatedRole = role ∧
            completeHandshake lib response host' = .ok () host'' ∧ Paired host'' r.2) ∧
      ((pin ≠ D ∧ lib.transcript pin E ≠ lib.transcript D E ∧
            lib.OpensAsSealed (message.drop noiseIkKeyLen)) ∨
          (pin = D ∧ ¬∃ found, controllerStoreFind controllers S = .ok found) →
        r.1 = none ∧ r.2.ready = false ∧ host'.isReady = false) := by
  obtain ⟨c, t, t', host, host', h⟩ := host_opens hlib hs he pin
  refine ⟨host, host', E.toList ++ c, h.created, h.begun, ?_⟩
  intro r
  have hunknown : pin = D → (¬∃ found, controllerStoreFind controllers S = .ok found) →
      r.1 = none ∧ r.2.ready = false := by
    rintro rfl hno
    obtain ⟨t₁, ctx₁, hid, -, -, -⟩ := h.identified hlib hd hs he hctx
    refine respond_refuses controllers h hcap _ fun key ctx₂ hid' => ?_
    rw [hid] at hid'
    cases hid'
    exact hno
  refine ⟨?_, ?_⟩
  · rintro rfl
    refine ⟨⟨fun hsome => ?_, ?_⟩, ?_⟩
    · by_contra hno
      rw [(hunknown rfl hno).1] at hsome
      cases hsome
    · rintro ⟨⟨slot, role⟩, hfind⟩
      obtain ⟨response, ctx', -, hr, -⟩ := h.answered hlib hd hs he he' hctx hcap hfind
      rw [show r = (some response, ctx') from hr]
      rfl
    · intro slot role hfind
      obtain ⟨response, ctx', host'', hr, hlen, hslot, hrole, hcomplete, hpaired⟩ :=
        h.answered hlib hd hs he he' hctx hcap hfind
      rw [show r = (some response, ctx') from hr]
      exact ⟨response, host'', rfl, hlen, hslot, hrole, hcomplete, hpaired⟩
  · rintro (⟨-, hhash, hopens⟩ | ⟨hpin, hno⟩)
    · rw [drop_head] at hopens
      obtain ⟨hnone, hready⟩ := respond_refuses controllers h hcap
        (some (e', E')) fun key ctx₁ hid =>
          absurd hid (h.mispinned hctx hhash hopens key ctx₁)
      exact ⟨hnone, hready, h.waiting⟩
    · obtain ⟨hnone, hready⟩ := hunknown hpin hno
      exact ⟨hnone, hready, h.waiting⟩

/-- Private keys 1 (device), 2 (host), 3 and 4 (ephemeral). The host that
pins the device's key completes; one that pins another key, whose message
opens only as it was sealed, is refused. -/
theorem handshake_agreement_seeded :
    (∃ host host' message, NoiseIKInitiator.new (toyCrypto none) (tagKey 2)
        (toyPublic (tagKey 1)) = some host ∧
      beginHandshake (toyCrypto none) (tagKey 3) host = .ok message host' ∧
      let r := noiseIkHandshakeRespond (toyCrypto none) (toyRoster (tagKey 2))
        (some (tagKey 4, toyPublic (tagKey 4))) message 53 (toyCtx (tagKey 1))
      ∃ response host'', r.1 = some response ∧ r.2.authenticatedSlot = 0 ∧
        completeHandshake (toyCrypto none) response host' = .ok () host'' ∧
        Paired host'' r.2) ∧
    (let lib := toyCrypto (some (toyMark (tagKey 2) (tagKey 3) (toyPublic (tagKey 5))))
      ∃ host host' message, NoiseIKInitiator.new lib (tagKey 2) (toyPublic (tagKey 5))
          = some host ∧
        beginHandshake lib (tagKey 3) host = .ok message host' ∧
        let r := noiseIkHandshakeRespond lib (toyRoster (tagKey 2))
          (some (tagKey 4, toyPublic (tagKey 4))) message 53 (toyCtx (tagKey 1))
        r.1 = none ∧ r.2.ready = false ∧ host'.isReady = false) := by
  have hfind : controllerStoreFind (toyRoster (tagKey 2)) (toyPublic (tagKey 2))
      = .ok (0, controllerRoleRecoveryAdmin) := by decide +kernel
  constructor
  · obtain ⟨host, host', message, hnew, hbegin, hpinned, -⟩ :=
      @handshake_agreement (toyCrypto none) toyCrypto_lawful (tagKey 1) _ (tagKey 2) _ (tagKey 3) _
        (tagKey 4) _ rfl rfl rfl rfl (toyRoster (tagKey 2)) (toyCtx (tagKey 1)) ⟨rfl, rfl, rfl⟩
        53 (Nat.le_refl 53) (toyPublic (tagKey 1))
    obtain ⟨response, host'', hr, -, hslot, -, hcomplete, hp⟩ := (hpinned rfl).2 _ _ hfind
    exact ⟨host, host', message, hnew, hbegin, response, host'', hr, hslot, hcomplete, hp⟩
  · intro lib
    obtain ⟨host, host', message, hnew, hbegin, -, hrefused⟩ :=
      @handshake_agreement lib toyCrypto_lawful (tagKey 1) _ (tagKey 2) _ (tagKey 3) _
        (tagKey 4) _ rfl rfl rfl rfl (toyRoster (tagKey 2)) (toyCtx (tagKey 1)) ⟨rfl, rfl, rfl⟩
        53 (Nat.le_refl 53) (toyPublic (tagKey 5))
    have hmessage : message.drop noiseIkKeyLen
        = (toyMark (tagKey 2) (tagKey 3) (toyPublic (tagKey 5))).2.2.2
          ++ List.replicate 16 0 := by
      have hc : toyCiphertext (some (toyMark (tagKey 2) (tagKey 3) (toyPublic (tagKey 5))))
          (tagKey 2) (tagKey 3) (toyPublic (tagKey 5))
          = (toyMark (tagKey 2) (tagKey 3) (toyPublic (tagKey 5))).2.2.2
            ++ List.replicate 16 0 := by decide +kernel
      rw [← hc, toyCiphertext, hnew]
      dsimp only
      rw [hbegin]
    have hopens : lib.OpensAsSealed (message.drop noiseIkKeyLen) := by
      rw [hmessage]
      exact toyCrypto_opensAsSealed _
    exact ⟨host, host', message, hnew, hbegin,
      hrefused (.inl ⟨by decide +kernel, by decide +kernel, hopens⟩)⟩

end PicoBridge
