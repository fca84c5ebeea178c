/-
What a sender can do to the device that holds neither a session key nor
the private key of an enrolled controller.

# The sender

An `Outsider` is given by what is secret from it. Key derivation and DH
are symbolic: what is derived from a secret is secret, and so is what two
secret private keys share. Its frames are any bytes (`Sends`), but the
AEAD is symbolic as well: a ciphertext that opens under a key it does not
have is one that it replays, and the device has opened it before.

# The argument

What the device has opened lies behind its receive counter (`Behind`), so
no frame of the outsider opens. A handshake that the outsider brings to
its end has `se`, which the device's ephemeral key shares with the static
key of an enrolled controller: the session's keys are secret from the
sender of the handshake.
-/
import PicoBridge.Device.Authority

namespace PicoBridge

open Lib (Machine)
open Lib.Procedure (ofOption_eq_ok bind_eq_ok pure_eq_ok)

-- ================================================================ the sender

/-- A sender, by the keys that are secret from it. -/
structure Outsider (lib : Crypto) where
  secret : Key → Prop
  kdf : ∀ {ck ikm k₁ k₂}, lib.hkdf ck ikm = some (k₁, k₂) → secret ck → secret k₁ ∧ secret k₂
  mix : ∀ {ck shared k₁ k₂}, lib.hkdf ck shared.toList = some (k₁, k₂) → secret shared →
    secret k₁ ∧ secret k₂
  dh : ∀ {a b B shared}, lib.KeyPair b B → x25519Dh lib a B = some shared → secret a →
    secret b → secret shared

/-- A ciphertext that the device has opened, under its key and counter. -/
structure Spent where
  key : Key
  counter : UInt64
  ciphertext : List UInt8
  deriving DecidableEq

/-- A call of `command_process_frame`. -/
structure Call where
  env : FrameEnv
  data : List UInt8

/-- A call in a run: the device before it, the response if there is one,
and the device after it. -/
structure CallReport where
  before : Device
  call : Call
  response : Option (List UInt8)
  after : Device

variable (lib : Crypto) (keys : HeaderKeys)

/-- The spent ciphertexts after a frame. -/
def spentBy (noise : NoiseIkCtx) (data : List UInt8) (spent : List Spent) : List Spent :=
  if (framePlaintext lib noise data).isSome then
    spent ++ [⟨noise.receiveKey, noise.receiveNonce, data.drop 9⟩]
  else spent

/-- The same after whatever happens to a device. -/
def spentAfter (w : Power) (spent : List Spent) : Happening → List Spent
  | .frame _ data | .frameCut _ data _ =>
      match w with
      | .off _ _ => spent
      | .on d => spentBy lib d.noise data spent
  | _ => spent

/-- The device beside the ciphertexts it has opened. -/
def spentMachine : Machine (Power × List Spent) Happening Unit where
  step s i := ((powerStep lib keys s.1 i, spentAfter lib s.1 s.2 i), [])

/-- A device that is on, call by call. -/
def callMachine : Machine (Device × List Spent) Call CallReport where
  step s c :=
    let r := commandProcessFrame lib s.1 c.env c.data bridgeTransportResponseMax
    ((r.2, spentBy lib s.1.noise c.data s.2), [⟨s.1, c, r.1, r.2⟩])

/-- A session that a handshake opens has a receive key of its own. -/
def FreshSession (d : Device) (spent : List Spent) (c : Call) : Prop :=
  let noise := (commandProcessFrame lib d c.env c.data bridgeTransportResponseMax).2.noise
  IsHandshake c.data → noise.ready = true → ∀ s ∈ spent, s.key ≠ noise.receiveKey

instance (d : Device) (spent : List Spent) (c : Call) : Decidable (FreshSession lib d spent c) :=
  inferInstanceAs (Decidable (_ → _ → ∀ _ ∈ _, _))

/-- So have the sessions of a life. -/
def FreshSessions (s : Power × List Spent) : Happening → Prop
  | .frame env data => ∀ d, s.1 = .on d → FreshSession lib d s.2 ⟨env, data⟩
  | _ => True

/-- An initiator's message whose static key is that of an enrolled
controller. -/
def NamesController (d : Device) (data : List UInt8) : Prop :=
  IsHandshake data ∧ ∃ key ctx found,
    identifyInitiator lib (data.drop 1) d.noise = .ok key ctx ∧
      controllerStoreFind d.controllers key = .ok found

variable {lib}

/-- The sender has neither key of the session, where there is one. -/
def Outsider.NoSession (o : Outsider lib) (noise : NoiseIkCtx) : Prop :=
  noise.ready = true → o.secret noise.receiveKey ∧ o.secret noise.sendKey

/-- The sender has neither a session key nor the private key of an
enrolled controller. -/
structure Outsider.Outside (o : Outsider lib) (d : Device) : Prop where
  session : o.NoSession d.noise
  roster : ∀ i, (d.controllers.slots i).used →
    ∃ priv, lib.KeyPair priv (d.controllers.slots i).publicKey ∧ o.secret priv

/-- A frame of the sender, whatever its bytes. What opens under a secret
key was opened before, so a genuine frame that was held back is none of
its frames; and the RNG's keys are secret and new. -/
structure Outsider.Sends (o : Outsider lib) (s : Device × List Spent) (c : Call) : Prop where
  sealed : s.1.noise.ready = true → o.secret s.1.noise.receiveKey → ∀ (n : UInt64) p,
    lib.decrypt s.1.noise.receiveKey (noiseNonce n) [] (c.data.drop 9) = some p →
      ⟨s.1.noise.receiveKey, n, c.data.drop 9⟩ ∈ s.2
  ephemeral : ∀ priv pub, c.env.responderEph = some (priv, pub) → o.secret priv
  fresh : FreshSession lib s.1 s.2 c

/-- The devices differ in nothing but the Noise session. -/
def SameButNoise (d d' : Device) : Prop := d' = { d with noise := d'.noise }

/-- A call that has no effect beyond the Noise session, which is the one
before, or none, or one that the sender has no key of. -/
structure CallReport.Inert (o : Outsider lib) (r : CallReport) : Prop where
  device : SameButNoise r.before r.after
  session : r.after.noise = r.before.noise ∨ r.after.noise.ready = false ∨
    (r.after.noise.ready = true ∧ o.secret r.after.noise.receiveKey ∧
      o.secret r.after.noise.sendKey)
  response : r.response = none ∨ NamesController lib r.before r.call.data

-- ============================================================ the session keys

variable {keys} {d : Device} {spent : List Spent} {c : Call}

theorem mixDh_ok {priv pub : Key} {ctx ctx' : NoiseIkCtx}
    (h : mixDh lib priv pub ctx = .ok () ctx') :
    ∃ shared key, x25519Dh lib priv pub = some shared ∧
      lib.hkdf ctx.ck shared.toList = some (ctx'.ck, key) := by
  unfold mixDh at h
  obtain ⟨shared, ctx₁, hdh, hmix⟩ := bind_eq_ok.mp h
  obtain ⟨hshared, rfl⟩ := ofOption_eq_ok.mp hdh
  unfold mixKey at hmix
  split at hmix
  next ck key hkdf =>
    cases hmix
    exact ⟨shared, key, hshared, hkdf⟩
  next => cases hmix

/-- The cipher leaves the chaining key. -/
theorem cipherEncryptAndHash_ck {p out : List UInt8} {ctx ctx' : NoiseIkCtx}
    (h : cipherEncryptAndHash lib p ctx = .ok out ctx') : ctx'.ck = ctx.ck := by
  unfold cipherEncryptAndHash at h
  split at h
  next => cases h
  next =>
    split at h
    next => cases h
    next =>
      obtain ⟨_, ctx₁, hhash, hp⟩ := bind_eq_ok.mp h
      obtain ⟨-, rfl⟩ := pure_eq_ok.mp hp
      obtain ⟨digest, -, rfl⟩ := mixHash_eq_ok hhash
      rfl

/-- The chaining key after `se`. -/
theorem writeResponse_ck {priv initiatorStatic initiatorEph : Key}
    {responderEph : Option (Key × Key)} {response : List UInt8} {ctx ctx' : NoiseIkCtx}
    (h : writeResponse lib priv initiatorStatic initiatorEph responderEph ctx = .ok response ctx') :
    ∃ ephPriv ephPub shared ck key, responderEph = some (ephPriv, ephPub) ∧
      x25519Dh lib ephPriv initiatorStatic = some shared ∧
      lib.hkdf ck shared.toList = some (ctx'.ck, key) := by
  unfold writeResponse at h
  obtain ⟨_, ctx₁, -, h⟩ := bind_eq_ok.mp h
  obtain ⟨⟨ephPriv, ephPub⟩, ctx₂, heph, h⟩ := bind_eq_ok.mp h
  obtain ⟨_, ctx₃, -, h⟩ := bind_eq_ok.mp h
  obtain ⟨_, ctx₄, -, h⟩ := bind_eq_ok.mp h
  obtain ⟨_, ctx₅, hse, h⟩ := bind_eq_ok.mp h
  obtain ⟨ack, ctx₆, hack, h⟩ := bind_eq_ok.mp h
  obtain ⟨shared, key, hshared, hkdf⟩ := mixDh_ok hse
  have hck : ctx'.ck = ctx₅.ck := by
    rw [← cipherEncryptAndHash_ck hack]
    split at h
    · obtain ⟨_, _, hthrow, -⟩ := bind_eq_ok.mp h
      cases hthrow
    · obtain ⟨-, rfl⟩ := pure_eq_ok.mp h
      rfl
  refine ⟨ephPriv, ephPub, shared, ctx₄.ck, key, (ofOption_eq_ok.mp heph).1, hshared, ?_⟩
  rw [hck]
  exact hkdf

theorem splitTransport_keys {ctx ctx' : NoiseIkCtx} (h : splitTransport lib ctx = .ok () ctx') :
    lib.hkdf ctx.ck [] = some (ctx'.receiveKey, ctx'.sendKey) := by
  unfold splitTransport at h
  split at h
  next k₁ k₂ hkdf =>
    cases h
    exact hkdf
  next => cases h

/-- A session's keys are secret from whoever lacks the device's ephemeral
and the controller's static private key. -/
theorem handshakeRespond_secret (o : Outsider lib) {controllers : ControllerStore}
    {responderEph : Option (Key × Key)} {message response : List UInt8} {responseCap : Nat}
    {ctx ctx' : NoiseIkCtx}
    (hroster : ∀ i, (controllers.slots i).used →
      ∃ priv, lib.KeyPair priv (controllers.slots i).publicKey ∧ o.secret priv)
    (heph : ∀ priv pub, responderEph = some (priv, pub) → o.secret priv)
    (h : noiseIkHandshakeRespond lib controllers responderEph message responseCap ctx
      = (some response, ctx')) :
    o.secret ctx'.receiveKey ∧ o.secret ctx'.sendKey := by
  obtain ⟨-, initiatorStatic, ctx₁, slot, role, ctx₂, ctx₃, -, hfind, hwrite, hsplit, rfl⟩ :=
    handshakeRespond_steps h
  obtain ⟨hused, hkey, -⟩ := controllerStoreFind_ok hfind
  obtain ⟨priv, hpair, hpriv⟩ := hroster slot hused
  rw [hkey] at hpair
  obtain ⟨ephPriv, ephPub, shared, ck, key, hdrawn, hse, hkdf⟩ := writeResponse_ck hwrite
  have hshared : o.secret shared := o.dh hpair hse (heph ephPriv ephPub hdrawn) hpriv
  have hck : o.secret ctx₂.ck := (o.mix hkdf hshared).1
  have hkeys := splitTransport_keys hsplit
  exact o.kdf hkeys hck

-- ================================================================ the frames

/-- A handshake is answered where `noise_ik_handshake_respond` returns 0. -/
theorem frame_answered {env : FrameEnv} {data response : List UInt8} {respCap : Nat}
    (hhandshake : IsHandshake data)
    (h : (commandProcessFrame lib d env data respCap).1 = some response) :
    ∃ message, (noiseIkHandshakeRespond lib d.controllers env.responderEph (data.drop 1)
      (respCap - 1) d.noise).1 = some message := by
  unfold commandProcessFrame processNoise at h
  rw [if_neg (by rw [hhandshake.2]; decide), if_pos hhandshake.1,
    if_neg (not_not.mpr hhandshake.2)] at h
  dsimp only at h
  split at h
  next => cases h
  next message hmessage => exact ⟨message, hmessage⟩

/-- A frame opens in a session only. -/
theorem decryptPacket_ready {packet p : List UInt8} {cap : Nat} {ctx ctx' : NoiseIkCtx}
    (h : noiseDecryptPacket lib packet cap ctx = .ok p ctx') : ctx.ready = true := by
  unfold noiseDecryptPacket at h
  split at h
  next => cases h
  next hready => exact not_not.mp fun hnot => hready (.inl hnot)

/-- What has been opened under the session's key was opened under an
earlier counter. -/
def Behind (d : Device) (spent : List Spent) : Prop :=
  d.noise.ready = true → ∀ s ∈ spent, s.key = d.noise.receiveKey →
    s.counter.toNat < d.noise.receiveNonce.toNat

theorem spentBy_none {data : List UInt8} (h : framePlaintext lib d.noise data = none) :
    spentBy lib d.noise data spent = spent := by
  unfold spentBy
  rw [h]
  rfl

theorem handshake_closed {data : List UInt8} (h : IsHandshake data) :
    framePlaintext lib d.noise data = none := by
  unfold framePlaintext
  rw [if_neg]
  rintro ⟨hcmd, -⟩
  exact absurd (h.1.symm.trans hcmd) (by decide)

/-- A frame leaves what has been opened behind. -/
theorem Behind.frame (h : Behind d spent) (hfresh : FreshSession lib d spent c) :
    Behind (commandProcessFrame lib d c.env c.data bridgeTransportResponseMax).2
      (spentBy lib d.noise c.data spent) := by
  intro hready s hs hkey
  rcases frame_cases lib d c.env c.data bridgeTransportResponseMax with
    ⟨hframe, -, hnone⟩ | ⟨hhandshake, -⟩ | ⟨p, d₁, hdispatch, hframe⟩
  · rw [spentBy_none hnone] at hs
    rw [hframe] at hready hkey ⊢
    exact h hready s hs hkey
  · rw [spentBy_none (handshake_closed hhandshake)] at hs
    exact absurd hkey (hfresh hhandshake hready s hs)
  · obtain ⟨sendNonce, hnoise⟩ := afterCommand_noise hdispatch c.env bridgeTransportResponseMax
    rw [hframe, hnoise] at hready hkey ⊢
    have hopened := framePlaintext_iff.mpr ⟨d₁, hdispatch⟩
    obtain ⟨-, -, noise, hopen, -⟩ := hdispatch
    have hcount : (d.noise.receiveNonce + 1).toNat = d.noise.receiveNonce.toNat + 1 :=
      toNat_succ (decryptPacket_ok hopen).1
    show s.counter.toNat < (d.noise.receiveNonce + 1).toNat
    unfold spentBy at hs
    rw [hopened, if_pos Option.isSome_some] at hs
    rcases List.mem_append.mp hs with hold | hnew
    · have := h hready s hold hkey
      omega
    · rw [List.mem_singleton.mp hnew, hcount]
      exact Nat.lt_succ_self _

/-- No frame of the outsider opens. -/
theorem Outsider.closed {o : Outsider lib} (hbehind : Behind d spent) (houtside : o.Outside d)
    (hsends : o.Sends (d, spent) c) : framePlaintext lib d.noise c.data = none := by
  by_contra hsome
  obtain ⟨p, hp⟩ := Option.ne_none_iff_exists'.mp hsome
  obtain ⟨d₁, -, -, noise, hopen, -⟩ := framePlaintext_iff.mp hp
  have hready := decryptPacket_ready hopen
  obtain ⟨-, hopens, -⟩ := decryptPacket_ok hopen
  rw [List.drop_drop] at hopens
  have hspent := hsends.sealed hready (houtside.session hready).1 _ p hopens
  exact absurd (hbehind hready _ hspent rfl) (lt_irrefl _)

/-- A frame of the outsider. -/
theorem Outsider.call_inert {o : Outsider lib} (hbehind : Behind d spent)
    (houtside : o.Outside d) (hsends : o.Sends (d, spent) c) :
    let r := commandProcessFrame lib d c.env c.data bridgeTransportResponseMax
    CallReport.Inert o ⟨d, c, r.1, r.2⟩ := by
  dsimp only
  have hclosed := Outsider.closed hbehind houtside hsends
  rcases frame_cases lib d c.env c.data bridgeTransportResponseMax with
    ⟨hframe, -⟩ | ⟨hhandshake, response, hframe⟩ | ⟨p, d₁, hdispatch, -⟩
  · rw [hframe]
    exact ⟨rfl, .inl rfl, .inl rfl⟩
  · rcases hrespond : noiseIkHandshakeRespond lib d.controllers c.env.responderEph
      (c.data.drop 1) (bridgeTransportResponseMax - 1) d.noise with ⟨message, noise⟩
    rw [hrespond] at hframe
    rw [hframe]
    cases message with
    | none =>
        have hlen : (c.data.drop 1).length = noiseIkInitMessageLen := by
          rw [List.length_drop, hhandshake.2]
          omega
        refine ⟨rfl, .inr (.inl (handshakeRespond_failed hlen (by decide) hrespond)), .inl ?_⟩
        by_contra hsome
        obtain ⟨bytes, hbytes⟩ := Option.ne_none_iff_exists'.mp hsome
        obtain ⟨message, hmessage⟩ :=
          frame_answered hhandshake ((congrArg Prod.fst hframe).trans hbytes)
        rw [hrespond] at hmessage
        cases hmessage
    | some message =>
        obtain ⟨-, key, ctx, slot, role, hid, hfind, hready, -, -⟩ := handshakeRespond_ok hrespond
        have hsecret := handshakeRespond_secret o houtside.roster hsends.ephemeral hrespond
        exact ⟨rfl, .inr (.inr ⟨hready, hsecret⟩), .inr ⟨hhandshake, key, ctx, _, hid, hfind⟩⟩
  · rw [framePlaintext_iff.mpr ⟨d₁, hdispatch⟩] at hclosed
    cases hclosed

-- ================================================================= the runs

theorem SameButNoise.trans {d₁ d₂ : Device} (h : SameButNoise d d₁) (h' : SameButNoise d₁ d₂) :
    SameButNoise d d₂ := by
  have hset : { d₁ with noise := d₂.noise } = { d with noise := d₂.noise } :=
    congrArg (fun d' : Device => { d' with noise := d₂.noise }) h
  exact Eq.trans h' hset

/-- The core, the RAM roster and the two flash records. -/
theorem SameButNoise.kept {d' : Device} (h : SameButNoise d d') :
    d'.core = d.core ∧ d'.controllers = d.controllers ∧ d'.store = d.store ∧
      d'.radio = d.radio := by
  unfold SameButNoise at h
  rw [h]
  exact ⟨rfl, rfl, rfl, rfl⟩

/-- A device after calls of the outsider. -/
structure Outsider.Holds (o : Outsider lib) (d : Device) (s : Device × List Spent) : Prop where
  device : SameButNoise d s.1
  outside : o.Outside s.1
  behind : Behind s.1 s.2

theorem Outsider.holds_call {o : Outsider lib} {s : Device × List Spent} (h : o.Holds d s)
    (hsends : o.Sends s c) :
    let r := (callMachine lib).step s c
    o.Holds d r.1 ∧ ∀ report ∈ r.2, report.Inert o := by
  have hinert : CallReport.Inert o _ := Outsider.call_inert h.behind h.outside hsends
  refine ⟨⟨h.device.trans hinert.device, ⟨?_, ?_⟩, h.behind.frame hsends.fresh⟩, ?_⟩
  · rcases hinert.session with hsame | hended | ⟨-, hsecret⟩
    · have hbefore := h.outside.session
      rw [← hsame] at hbefore
      exact hbefore
    · exact fun hready => absurd (hended.symm.trans hready) Bool.false_ne_true
    · exact fun _ => hsecret
  · have hram : ((callMachine lib).step s c).1.1.controllers = s.1.controllers :=
      hinert.device.kept.2.1
    rw [hram]
    exact h.outside.roster
  · intro report hreport
    rw [List.mem_singleton.mp hreport]
    exact hinert

/-- The calls of an outsider, one after the other. -/
theorem Outsider.calls_inert {o : Outsider lib} {s : Device × List Spent} (h : o.Holds d s)
    {cs : List Call} (hsends : (callMachine lib).StepsMeet o.Sends s cs) :
    o.Holds d ((callMachine lib).final s cs) ∧
      ∀ report ∈ (callMachine lib).trace s cs, report.Inert o := by
  refine (callMachine lib).run_inv (G := o.Sends)
    (P := fun s reports => o.Holds d s ∧ ∀ report ∈ reports, report.Inert o) ?_ cs s []
    ⟨h, fun report hreport => by cases hreport⟩ hsends
  rintro s reports c ⟨hholds, hreports⟩ hc
  obtain ⟨hnext, hnew⟩ := Outsider.holds_call hholds hc
  refine ⟨hnext, fun report hreport => ?_⟩
  rcases List.mem_append.mp hreport with hold | hlast
  · exact hreports report hold
  · exact hnew report hlast

-- ========================================================= the reachable states

theorem behind_step {s : Power × List Spent} {i : Happening}
    (h : ∀ d, s.1 = .on d → Behind d s.2) (hfresh : FreshSessions lib s i) :
    ∀ d, ((spentMachine lib keys).step s i).1.1 = .on d →
      Behind d ((spentMachine lib keys).step s i).1.2 := by
  obtain ⟨w, spent⟩ := s
  intro d' hd'
  cases i with
  | boot seedExec importExec =>
      intro hready
      have hon : bootPower lib keys w seedExec importExec = .on d' := hd'
      rw [bootPower_ready hon] at hready
      cases hready
  | bootCut phase cut => cases hd'
  | frame env data =>
      cases w with
      | off store radio => cases hd'
      | on d =>
          cases hd'
          exact (h d rfl).frame (hfresh d rfl)
  | frameCut env data cut =>
      cases w with
      | off store radio => cases hd'
      | on d => cases hd'
  | core call =>
      cases w with
      | off store radio => cases hd'
      | on d =>
          cases hd'
          exact h d rfl
  | powerOff => cases hd'

/-- Calls are frames of a life. -/
theorem spent_calls (keys : HeaderKeys) (cs : List Call) : ∀ s : Device × List Spent,
    (spentMachine lib keys).final (.on s.1, s.2) (cs.map fun c => .frame c.env c.data)
      = (.on ((callMachine lib).final s cs).1, ((callMachine lib).final s cs).2) := by
  induction cs with
  | nil => exact fun _ => rfl
  | cons c cs ih => exact fun s => ih ((callMachine lib).step s c).1

/-- In every life of a device whose sessions have keys of their own, what
the device has opened is behind its receive counter. -/
theorem behind_run (keys : HeaderKeys) (store : StoreFlash) (radio : Sector)
    {is : List Happening}
    (hfresh : (spentMachine lib keys).StepsMeet (FreshSessions lib) (.off store radio, []) is)
    (hd : (spentMachine lib keys).final (.off store radio, []) is = (.on d, spent)) :
    Behind d spent := by
  have hrun := (spentMachine lib keys).run_inv (G := FreshSessions lib)
    (P := fun s _ => ∀ d, s.1 = .on d → Behind d s.2)
    (fun s _ i h hi => behind_step h hi) is (.off store radio, []) []
    (fun d hd => by cases hd) hfresh
  rw [hd] at hrun
  exact hrun d rfl

end PicoBridge
