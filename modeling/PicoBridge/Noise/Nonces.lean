/-
Nonce discipline over every run of the two sides.

Each call of either side keeps `NoncesKept` (`step_kept`), given that the
history it extends is a good one. Handshakes use the cipher at its first
nonce and the device stops before the reserved one, so the reserved nonce
is a matter of the host's two transport calls: `_noise_nonce` lets it
through, and `NonceLeft` says when the host is asked for it.
-/
import PicoBridge.Noise.Stages
import PicoBridge.Noise.Agreement

namespace PicoBridge

open Lib Lib.Procedure Lib.KeySchedule

-- ============================================================ the reserved nonce

/-- The last value of a 64-bit counter. -/
def reservedNonce : Nat := 2 ^ 64 - 1

/-- The call does not use the cipher at the reserved nonce. -/
def Unreserved : Event Party Key (List UInt8) → Prop
  | .used _ _ _ n _ => n ≠ reservedNonce
  | _ => True

/-- The host is not asked to seal, nor to open a receipt it expects, with
its counter at the reserved nonce. -/
def NonceLeft (s : Parties) : PartyCall → Prop
  | .encrypt _ => ∀ host ∈ s.host, host.isReady = true → host.sendNonce ≠ reservedNonce
  | .verify packet => ∀ host ∈ s.host, host.isReady = true → host.expects packet →
      host.receiveNonce ≠ reservedNonce
  | _ => True

instance (s : Parties) : (c : PartyCall) → Decidable (NonceLeft s c)
  | .encrypt _ => inferInstanceAs (Decidable (∀ host ∈ s.host, _ → _))
  | .verify _ => inferInstanceAs (Decidable (∀ host ∈ s.host, _ → _ → _))
  | .respond .. => inferInstanceAs (Decidable True)
  | .decrypt .. => inferInstanceAs (Decidable True)
  | .receipt .. => inferInstanceAs (Decidable True)
  | .connect .. => inferInstanceAs (Decidable True)
  | .begin _ => inferInstanceAs (Decidable True)
  | .complete _ => inferInstanceAs (Decidable True)

variable {lib : Crypto} {root : Key} {h : History}

theorem reserved_lt : reservedNonce < 2 ^ 64 := by decide

theorem toNat_ne_reserved {counter : UInt64} (hne : counter ≠ uint64Max) :
    counter.toNat ≠ reservedNonce := fun heq => hne (UInt64.toNat_inj.mp heq)

theorem atZero_unreserved {p : Party} {new : History} (hz : AtZero p new) :
    ∀ e ∈ new, Unreserved e := by
  intro e he
  cases e with
  | used q op k n ok =>
      have hn := hz.2 q op k n ok he
      rw [Unreserved, hn]
      decide
  | drawn => trivial
  | shared => trivial
  | derived => trivial

-- ======================================================== the transport calls

/-- A packet is opened under a counter the device has left, or not at all,
and nothing else of the session changes. -/
theorem decryptPacket_note (packet : List UInt8) (cap : Nat) (ctx : NoiseIkCtx) :
    (added (loggedDecryptPacket lib packet cap) ctx = [] ∨
      ∃ k n ok, added (loggedDecryptPacket lib packet cap) ctx
        = [.used .device .opening k n ok] ∧ n ≠ reservedNonce) ∧
    ∃ n, leaves (noiseDecryptPacket lib packet cap) ctx = { ctx with receiveNonce := n } := by
  constructor
  · rw [loggedDecryptPacket, added_record]
    split
    next => exact .inl rfl
    next hready =>
      split
      next => exact .inl rfl
      next =>
        split
        next => exact .inl rfl
        next =>
          refine .inr ⟨_, _, _, rfl, toNat_ne_reserved fun hmax => ?_⟩
          exact hready (.inr (.inr hmax))
  · cases hrun : noiseDecryptPacket lib packet cap ctx with
    | ok plaintext ctx' =>
        obtain ⟨-, -, rfl⟩ := decryptPacket_ok hrun
        exact ⟨_, leaves_ok hrun⟩
    | error e ctx' =>
        obtain rfl := decryptPacket_error hrun
        exact ⟨_, leaves_error hrun⟩

/-- A receipt is sealed under the sending counter, or nothing happens. -/
theorem encryptAck_note (status : UInt8) (cap : Nat) (ctx : NoiseIkCtx) :
    (leaves (noiseEncryptTransportAck lib status cap) ctx = ctx ∧
      (added (loggedEncryptTransportAck lib status cap) ctx = [] ∨
        added (loggedEncryptTransportAck lib status cap) ctx
          = [.used .device .sealing ctx.sendKey ctx.sendNonce.toNat false] ∧
        ctx.sendNonce ≠ uint64Max)) ∨
    (ctx.ready = true ∧ ctx.sendNonce ≠ uint64Max ∧
      leaves (noiseEncryptTransportAck lib status cap) ctx
        = { ctx with sendNonce := ctx.sendNonce + 1 } ∧
      added (loggedEncryptTransportAck lib status cap) ctx
        = [.used .device .sealing ctx.sendKey ctx.sendNonce.toNat true]) := by
  rw [loggedEncryptTransportAck, added_record]
  unfold leaves noiseEncryptTransportAck
  by_cases hstop : ¬ctx.ready ∨ cap < noiseIkTransportResponseLen ∨ ctx.sendNonce = uint64Max
  · simp only [if_pos hstop]
    exact .inl ⟨trivial, .inl trivial⟩
  · simp only [if_neg hstop]
    rw [not_or, not_or, not_not] at hstop
    cases lib.encrypt ctx.sendKey (noiseNonce ctx.sendNonce) []
        (transportAck ++ [status]) with
    | none => exact .inl ⟨rfl, .inr ⟨rfl, hstop.2.2⟩⟩
    | some sealed => exact .inr ⟨hstop.1, hstop.2.2, rfl, rfl⟩

/-- `_noise_nonce` raises from 2^64 on. -/
theorem hostNoiseNonce_none {n : Nat} (h : hostNoiseNonce n = none) : ¬n < 2 ^ 64 := by
  intro hlt
  rw [hostNoiseNonce, if_pos hlt] at h
  cases h

/-- A command is sealed under the sending counter, or nothing happens. -/
theorem encryptPacket_note (plaintext : List UInt8) (host : NoiseIKInitiator) :
    (leaves (encryptPacket lib plaintext) host = host ∧
      ((added (loggedEncryptPacket lib plaintext) host = [] ∧
          ¬(host.isReady = true ∧ host.sendNonce < 2 ^ 64)) ∨
        ∃ k nonce, added (loggedEncryptPacket lib plaintext) host
          = [.used .host .sealing k host.sendNonce false] ∧ host.isReady = true ∧
            lib.encrypt k nonce [] plaintext = none)) ∨
    (host.isReady = true ∧ ∃ k, host.sendKey = some k ∧
      leaves (encryptPacket lib plaintext) host
        = { host with sendNonce := host.sendNonce + 1 } ∧
      added (loggedEncryptPacket lib plaintext) host
        = [.used .host .sealing k host.sendNonce true]) := by
  rw [loggedEncryptPacket, added_record]
  unfold leaves encryptPacket NoiseIKInitiator.isReady
  cases host.sendKey with
  | none => exact .inl ⟨rfl, .inl ⟨rfl, fun hno => by cases hno.1⟩⟩
  | some sendKey =>
      cases host.receiveKey with
      | none => exact .inl ⟨rfl, .inl ⟨rfl, fun hno => by cases hno.1⟩⟩
      | some receiveKey =>
          cases hnonce : hostNoiseNonce host.sendNonce with
          | none => exact .inl ⟨rfl, .inl ⟨rfl, fun hlt => hostNoiseNonce_none hnonce hlt.2⟩⟩
          | some nonce =>
              dsimp only
              cases hseal : lib.encrypt sendKey nonce [] plaintext with
              | none => exact .inl ⟨rfl, .inr ⟨sendKey, nonce, rfl, rfl, hseal⟩⟩
              | some ciphertext => exact .inr ⟨rfl, sendKey, rfl, rfl, rfl⟩

/-- `verify_transport_ack` keeps the object, or counts a receipt that
opened. -/
theorem verifyAck_run (packet : List UInt8) (host : NoiseIKInitiator) :
    (∃ e, verifyTransportAck lib packet host = .error e host) ∨
      (∃ s, verifyTransportAck lib packet host
        = .ok s { host with receiveNonce := host.receiveNonce + 1 }) ∨
      verifyTransportAck lib packet host
        = .error .unexpectedReceipt { host with receiveNonce := host.receiveNonce + 1 } ∨
      ∃ s, verifyTransportAck lib packet host
        = .error (.rejected s) { host with receiveNonce := host.receiveNonce + 1 } := by
  generalize hr : verifyTransportAck lib packet host = r
  unfold verifyTransportAck at hr
  split at hr
  next =>
    split at hr
    next => exact .inl ⟨_, hr.symm⟩
    next =>
      split at hr
      next => exact .inl ⟨_, hr.symm⟩
      next =>
        split at hr
        next => exact .inl ⟨_, hr.symm⟩
        next =>
          split at hr
          next => exact .inl ⟨_, hr.symm⟩
          next =>
            dsimp only at hr
            split at hr
            next => exact .inr (.inr (.inl hr.symm))
            next =>
              split at hr
              next => exact .inr (.inr (.inr ⟨_, hr.symm⟩))
              next => exact .inr (.inl ⟨_, hr.symm⟩)
  next => exact .inl ⟨_, hr.symm⟩

/-- A receipt the host expects is opened under the receiving counter, and
nothing the host sends with changes. -/
theorem verifyAck_note (packet : List UInt8) (host : NoiseIKInitiator) :
    ((added (loggedVerifyTransportAck lib packet) host = [] ∧
        ¬(host.isReady = true ∧ host.expects packet ∧ host.receiveNonce < 2 ^ 64)) ∨
      ∃ k ok, added (loggedVerifyTransportAck lib packet) host
        = [.used .host .opening k host.receiveNonce ok] ∧ host.isReady = true ∧
          host.expects packet) ∧
    ∃ n, leaves (verifyTransportAck lib packet) host = { host with receiveNonce := n } := by
  constructor
  · rw [loggedVerifyTransportAck, added_record]
    unfold NoiseIKInitiator.isReady
    cases host.sendKey with
    | none => exact .inl ⟨rfl, fun hno => by cases hno.1⟩
    | some sendKey =>
        cases host.receiveKey with
        | none => exact .inl ⟨rfl, fun hno => by cases hno.1⟩
        | some receiveKey =>
            cases hnonce : hostNoiseNonce host.receiveNonce with
            | none => exact .inl ⟨rfl, fun hlt => hostNoiseNonce_none hnonce hlt.2.2⟩
            | some nonce =>
                by_cases hexpects : host.expects packet
                · exact .inr ⟨receiveKey, _, if_pos hexpects, rfl, hexpects⟩
                · exact .inl ⟨if_neg hexpects, fun hyes => hexpects hyes.2.1⟩
  · rcases @verifyAck_run lib packet host with ⟨e, hrun⟩ | ⟨s, hrun⟩ | hrun | ⟨s, hrun⟩
    · exact ⟨host.receiveNonce, leaves_error hrun⟩
    · exact ⟨_, leaves_ok hrun⟩
    · exact ⟨_, leaves_error hrun⟩
    · exact ⟨_, leaves_error hrun⟩

-- ================================================================== one call

variable {s : Parties}

theorem start_stage {σ : Type} {p : Party} {x : σ} {I : σ → History → Prop}
    (hs : Sound SealsUnder root h) (hI : I x h) :
    Stage p root h (fun _ => True) I (x, []) := by
  refine ⟨atZero_nil p, trivial, fun _ => ?_⟩
  rw [List.append_nil]
  exact ⟨hs, hI⟩

/-- The device's calls keep the host's side of it. -/
theorem NoncesKept.device_calls {ctx : NoiseIkCtx} {new : History} (hk : NoncesKept root s h)
    (hby : By .device new) (hg : Good root (h ++ new)) (hs : Sound SealsUnder root (h ++ new))
    (hd : DeviceKept ctx (h ++ new)) : NoncesKept root { s with device := ctx } (h ++ new) where
  sound := hs
  rooted := hk.rooted.append fun p d hp hmem => by
    cases hp
    exact absurd (hby.1 _ _ hmem) (by decide)
  device := hd
  host host hhost := (hk.host host hhost).append hs hg.1 hby

/-- The host's calls keep the device's side of it. -/
theorem NoncesKept.host_calls {host : NoiseIKInitiator} {new : History} (hk : NoncesKept root s h)
    (hby : By .host new) (hg : Good root (h ++ new)) (hs : Sound SealsUnder root (h ++ new))
    (hh : HostKept root host (h ++ new)) :
    NoncesKept root { s with host := some host } (h ++ new) where
  sound := hs
  rooted := hh.rooted
  device := hk.device.append hs hg.1 hby
  host host' hhost := by
    obtain rfl := Option.some.inj hhost
    exact hh

/-- A call without a note, if the attributes it keeps are right. -/
theorem NoncesKept.quiet (hk : NoncesKept root s h) {s' : Parties}
    (hdevice : DeviceKept s'.device h)
    (hhost : ∀ host, s'.host = some host → HostKept root host h) :
    NoncesKept root s' (h ++ []) := by
  rw [List.append_nil]
  exact ⟨hk.sound, hk.rooted, hdevice, hhost⟩

/-- A handshake the device is asked for, however it ends. -/
theorem respond_kept (hroot : lib.sha256 proto = some root) (hk : NoncesKept root s h)
    (controllers : ControllerStore) (responderEph : Option (Key × Key)) (message : List UInt8)
    (cap : Nat) :
    (∀ e ∈ respondHistory lib controllers responderEph message cap s.device, Unreserved e) ∧
    (Good root (h ++ respondHistory lib controllers responderEph message cap s.device) →
      NoncesKept root { s with device :=
          (noiseIkHandshakeRespond lib controllers responderEph message cap s.device).2 }
        (h ++ respondHistory lib controllers responderEph message cap s.device)) := by
  unfold respondHistory noiseIkHandshakeRespond
  by_cases hstop : message.length ≠ noiseIkInitMessageLen ∨ cap < noiseIkResponseLen
  · simp only [if_pos hstop]
    exact ⟨by simp, fun _ => hk.quiet hk.device hk.host⟩
  · simp only [if_neg hstop]
    have hstage := loggedHandshakeBody_stage hroot controllers responderEph message (s.device, [])
      (start_stage hk.sound trivial)
    obtain ⟨new, hrun⟩ := handshakeBody_logged controllers responderEph message s.device []
    have hadded : added (loggedHandshakeBody lib controllers responderEph message) s.device
        = [] ++ new := by
      rw [added, leaves, hrun]
      cases handshakeBody lib controllers responderEph message s.device <;> rfl
    rw [hrun] at hstage
    rw [hadded]
    cases hbody : handshakeBody lib controllers responderEph message s.device with
    | ok response ctx =>
        rw [hbody] at hstage
        refine ⟨atZero_unreserved hstage.1, fun hg => ?_⟩
        obtain ⟨hs, hd⟩ := hstage.2.2 hg
        exact hk.device_calls hstage.1.1 hg hs hd
    | error e ctx =>
        rw [hbody] at hstage
        refine ⟨atZero_unreserved hstage.1, fun hg => ?_⟩
        obtain ⟨hs, -⟩ := hstage.2.2 hg
        refine hk.device_calls hstage.1.1 hg hs fun hready => ?_
        exact absurd hready (by rw [resetHandshakeState_ready]; decide)

/-- A handshake method of the host, however it ends. -/
theorem hostStage_kept {α : Type} {x : Host α} {x' : LoggedHost α} (hk : NoncesKept root s h)
    (hx : Projects x' x)
    (hstage : Triple (Stage .host root h (fun _ => True) (HostKept root)) x'
      (fun _ => Stage .host root h (fun _ => True) (HostKept root)) (hostFailed root h)) :
    (∀ e ∈ (s.hostRuns x x').2, Unreserved e) ∧
      (Good root (h ++ (s.hostRuns x x').2) → NoncesKept root (s.hostRuns x x').1
        (h ++ (s.hostRuns x x').2)) := by
  unfold Parties.hostRuns
  cases hhost : s.host with
  | none =>
      refine ⟨by simp, fun _ => hk.quiet hk.device fun host hsome => ?_⟩
      rw [hhost] at hsome
      cases hsome
  | some host =>
      have hend : Stage .host root h (fun _ => True) (HostKept root) (leaves x' (host, [])) :=
        hstage.leaves (fun _ _ hst => hst) (fun _ _ hst => hst)
          (start_stage hk.sound (hk.host host hhost))
      rw [hx.leaves] at hend
      refine ⟨atZero_unreserved hend.1, fun hg => ?_⟩
      obtain ⟨hs, hh⟩ := hend.2.2 hg
      exact hk.host_calls hend.1.1 hg hs hh

theorem decrypt_kept (hk : NoncesKept root s h) (packet : List UInt8) (cap : Nat) :
    (∀ e ∈ added (loggedDecryptPacket lib packet cap) s.device, Unreserved e) ∧
    (Good root (h ++ added (loggedDecryptPacket lib packet cap) s.device) →
      NoncesKept root { s with device := leaves (noiseDecryptPacket lib packet cap) s.device }
        (h ++ added (loggedDecryptPacket lib packet cap) s.device)) := by
  obtain ⟨hnote, n, hleft⟩ := @decryptPacket_note lib packet cap s.device
  rw [hleft]
  rcases hnote with hnote | ⟨k, n', ok, hnote, hne⟩
  · rw [hnote]
    exact ⟨by simp, fun _ => hk.quiet hk.device hk.host⟩
  · rw [hnote]
    refine ⟨by simpa [Unreserved] using hne, fun hg => ?_⟩
    have hs : Sound SealsUnder root (h ++ [.used .device .opening k n' ok]) :=
      hk.sound.inert (by simp) (by simp)
    refine hk.device_calls (by_used _ _ _ _ _) hg hs fun hready => ?_
    obtain ⟨q, d, hd, hsplit, hkey, hcount⟩ := hk.device hready
    refine ⟨q, d, List.mem_append_left _ hd, hsplit, hkey, ?_⟩
    rw [sealed_append_of_not (by simp)]
    exact hcount

theorem receipt_kept (hk : NoncesKept root s h) (status : UInt8) (cap : Nat) :
    (∀ e ∈ added (loggedEncryptTransportAck lib status cap) s.device, Unreserved e) ∧
    (Good root (h ++ added (loggedEncryptTransportAck lib status cap) s.device) →
      NoncesKept root { s with device := leaves (noiseEncryptTransportAck lib status cap) s.device }
        (h ++ added (loggedEncryptTransportAck lib status cap) s.device)) := by
  rcases @encryptAck_note lib status cap s.device with
    ⟨hleft, hnote | ⟨hnote, hmax⟩⟩ | ⟨hready, hmax, hleft, hnote⟩
  · rw [hnote, hleft]
    exact ⟨by simp, fun _ => hk.quiet hk.device hk.host⟩
  · rw [hnote, hleft]
    refine ⟨by simpa [Unreserved] using toNat_ne_reserved hmax, fun hg => ?_⟩
    have hs : Sound SealsUnder root (h ++ [.used .device .sealing s.device.sendKey
        s.device.sendNonce.toNat false]) := hk.sound.inert (by simp) (by simp)
    refine hk.device_calls (by_used _ _ _ _ _) hg hs fun hready => ?_
    obtain ⟨q, d, hd, hsplit, hkey, hcount⟩ := hk.device hready
    refine ⟨q, d, List.mem_append_left _ hd, hsplit, hkey, ?_⟩
    rw [sealed_append_of_not (by simp)]
    exact hcount
  · rw [hnote, hleft]
    refine ⟨by simpa [Unreserved] using toNat_ne_reserved hmax, fun hg => ?_⟩
    obtain ⟨q, d, hd, hsplit, hkey, hcount⟩ := hk.device hready
    have hown : ∀ p n, .used p .sealing s.device.sendKey n true ∈ h → p = .device := by
      intro p n hused
      cases p with
      | device => rfl
      | host =>
          rw [hkey] at hused
          exact absurd hused (receipts_not_host hk.sound hg.of_append.1 hd hsplit)
    have hs := hk.sound.seal hd (hkey ▸ .receipts q d hsplit) hcount hown
    refine hk.device_calls (by_used _ _ _ _ _) hg hs fun _ => ?_
    refine ⟨q, d, List.mem_append_left _ hd, hsplit, hkey, ?_⟩
    rw [sealed_used, hcount, toNat_succ hmax]
    exact List.range_succ.symm

/-- The host's `encrypt_packet`: the reserved nonce is used exactly when the
host is asked for it. -/
theorem encrypt_unreserved (plaintext : List UInt8) :
    (∀ e ∈ (s.hostRuns (encryptPacket lib plaintext) (loggedEncryptPacket lib plaintext)).2,
      Unreserved e) ↔ NonceLeft s (.encrypt plaintext) := by
  unfold Parties.hostRuns NonceLeft
  cases hhost : s.host with
  | none => simp
  | some host =>
      have hone : ∀ k ok, (∀ e ∈ ([.used .host .sealing k host.sendNonce ok] : History),
          Unreserved e) ↔ host.sendNonce ≠ reservedNonce := by simp [Unreserved]
      simp only [Option.mem_def, Option.some.injEq, forall_eq']
      rcases @encryptPacket_note lib plaintext host with
        ⟨-, ⟨hnote, hno⟩ | ⟨k, -, hnote, hready, -⟩⟩ | ⟨hready, k, -, -, hnote⟩
      · rw [hnote]
        refine iff_of_true (by simp) fun hready hmax => hno ⟨hready, ?_⟩
        rw [hmax]
        exact reserved_lt
      · rw [hnote, hone]
        exact ⟨fun hne _ => hne, fun hne => hne hready⟩
      · rw [hnote, hone]
        exact ⟨fun hne _ => hne, fun hne => hne hready⟩

/-- The same of the host's `verify_transport_ack`. -/
theorem verify_unreserved (packet : List UInt8) :
    (∀ e ∈ (s.hostRuns (verifyTransportAck lib packet) (loggedVerifyTransportAck lib packet)).2,
      Unreserved e) ↔ NonceLeft s (.verify packet) := by
  unfold Parties.hostRuns NonceLeft
  cases hhost : s.host with
  | none => simp
  | some host =>
      simp only [Option.mem_def, Option.some.injEq, forall_eq']
      rcases (@verifyAck_note lib packet host).1 with
        ⟨hnote, hno⟩ | ⟨k, ok, hnote, hready, hexpects⟩
      · rw [hnote]
        refine iff_of_true (by simp) fun hready hexpects hmax => hno ⟨hready, hexpects, ?_⟩
        rw [hmax]
        exact reserved_lt
      · rw [hnote]
        simp [Unreserved, hready, hexpects]

theorem encrypt_kept (hk : NoncesKept root s h) (plaintext : List UInt8) :
    Good root (h ++ (s.hostRuns (encryptPacket lib plaintext)
      (loggedEncryptPacket lib plaintext)).2) →
    NoncesKept root (s.hostRuns (encryptPacket lib plaintext) (loggedEncryptPacket lib plaintext)).1
      (h ++ (s.hostRuns (encryptPacket lib plaintext) (loggedEncryptPacket lib plaintext)).2) := by
  unfold Parties.hostRuns
  cases hhost : s.host with
  | none =>
      refine fun _ => hk.quiet hk.device fun host hsome => ?_
      rw [hhost] at hsome
      cases hsome
  | some host =>
      have hh := hk.host host hhost
      intro hg
      dsimp only at hg ⊢
      rcases @encryptPacket_note lib plaintext host with
        ⟨hleft, ⟨hnote, -⟩ | ⟨k, -, hnote, -⟩⟩ | ⟨-, k, hkey, hleft, hnote⟩
      · rw [hnote] at hg ⊢
        rw [hleft]
        exact hk.host_calls ⟨by simp, by simp⟩ hg (hk.sound.inert (by simp) (by simp))
          (hh.inert (by simp) (by simp))
      · rw [hnote] at hg ⊢
        rw [hleft]
        exact hk.host_calls (by_used _ _ _ _ _) hg (hk.sound.inert (by simp) (by simp))
          (hh.inert (by simp) (by simp))
      · rw [hnote] at hg ⊢
        rw [hleft]
        obtain ⟨d, hd, hsplit, hfirst, hcount⟩ := hh.sends k hkey
        have hown : ∀ p n, .used p .sealing k n true ∈ h → p = .host := by
          intro p n hused
          cases p with
          | host => rfl
          | device =>
              obtain ⟨q, d', hd', hrole⟩ := hk.sound.keyed _ _ n hused
              have hne : k ≠ d'.second := by
                rw [hfirst]
                exact hg.1.separated _ (mem_derivations.mpr (List.mem_append_left _ hd)) _
                  (mem_derivations.mpr (List.mem_append_left _ hd'))
              cases hrole with
              | handshake => exact absurd rfl hne
              | receipts => exact absurd rfl hne
        have hs := hk.sound.seal hd (hfirst ▸ .commands d hsplit) hcount hown
        refine hk.host_calls (by_used _ _ _ _ _) hg hs
          ⟨hh.rooted.append (by simp), hh.chained.append, fun e he => ?_, fun k' hk' => ?_⟩
        · obtain ⟨pre, post, rfl, hpost⟩ := hh.drawn e he
          exact ⟨pre, post ++ [.used .host .sealing k host.sendNonce true], by simp, by
            simpa using hpost⟩
        · obtain rfl : k = k' := Option.some.inj (hkey.symm.trans hk')
          refine ⟨d, List.mem_append_left _ hd, hsplit, hfirst, ?_⟩
          rw [sealed_used, hcount]
          exact List.range_succ.symm

theorem verify_kept (hk : NoncesKept root s h) (packet : List UInt8) :
    Good root (h ++ (s.hostRuns (verifyTransportAck lib packet)
      (loggedVerifyTransportAck lib packet)).2) →
    NoncesKept root
      (s.hostRuns (verifyTransportAck lib packet) (loggedVerifyTransportAck lib packet)).1
      (h ++ (s.hostRuns (verifyTransportAck lib packet)
        (loggedVerifyTransportAck lib packet)).2) := by
  unfold Parties.hostRuns
  cases hhost : s.host with
  | none =>
      refine fun _ => hk.quiet hk.device fun host hsome => ?_
      rw [hhost] at hsome
      cases hsome
  | some host =>
      have hh := hk.host host hhost
      intro hg
      dsimp only at hg ⊢
      obtain ⟨hnote, n, hleft⟩ := @verifyAck_note lib packet host
      rw [hleft]
      rcases hnote with ⟨hnote, -⟩ | ⟨k, ok, hnote, -⟩
      · rw [hnote] at hg ⊢
        exact hk.host_calls ⟨by simp, by simp⟩ hg (hk.sound.inert (by simp) (by simp))
          ((hh.inert (by simp) (by simp)).of_eq rfl rfl rfl rfl)
      · rw [hnote] at hg ⊢
        exact hk.host_calls (by_used _ _ _ _ _) hg (hk.sound.inert (by simp) (by simp))
          ((hh.inert (by simp) (by simp)).of_eq rfl rfl rfl rfl)

theorem connect_kept (hroot : lib.sha256 proto = some root) (hk : NoncesKept root s h)
    {initiatorPrivate devicePublic : Key} {host : NoiseIKInitiator}
    (hnew : NoiseIKInitiator.new lib initiatorPrivate devicePublic = some host) :
    NoncesKept root { s with host := some host } (h ++ []) := by
  unfold NoiseIKInitiator.new at hnew
  simp only [Option.bind_eq_bind, Option.bind_eq_some_iff, Option.some.injEq] at hnew
  obtain ⟨staticPub, -, h₀, hproto, h₁, -, rfl⟩ := hnew
  obtain rfl : root = h₀ := Option.some.inj (hroot.symm.trans hproto)
  refine hk.quiet hk.device fun host hsome => ?_
  obtain rfl := Option.some.inj hsome
  exact ⟨hk.rooted, .inl rfl, fun e he => (by cases he), fun k hk => (by cases hk)⟩

/-- Every call of either side. -/
theorem step_kept (hroot : lib.sha256 proto = some root) (hk : NoncesKept root s h) (c : PartyCall)
    (hg : Good root (h ++ ((parties lib).step s c).2)) :
    NoncesKept root ((parties lib).step s c).1 (h ++ ((parties lib).step s c).2) ∧
      ((∀ e ∈ ((parties lib).step s c).2, Unreserved e) ↔ NonceLeft s c) := by
  cases c with
  | respond controllers responderEph message cap =>
      obtain ⟨hfree, hkept⟩ := respond_kept hroot hk controllers responderEph message cap
      exact ⟨hkept hg, iff_of_true hfree trivial⟩
  | decrypt packet cap =>
      obtain ⟨hfree, hkept⟩ := decrypt_kept hk packet cap
      exact ⟨hkept hg, iff_of_true hfree trivial⟩
  | receipt status cap =>
      obtain ⟨hfree, hkept⟩ := receipt_kept hk status cap
      exact ⟨hkept hg, iff_of_true hfree trivial⟩
  | connect initiatorPrivate devicePublic =>
      simp only [parties]
      cases hnew : NoiseIKInitiator.new lib initiatorPrivate devicePublic with
      | none => exact ⟨hk.quiet hk.device hk.host, iff_of_true (by simp) trivial⟩
      | some host => exact ⟨connect_kept hroot hk hnew, iff_of_true (by simp) trivial⟩
  | begin ephPriv =>
      obtain ⟨hfree, hkept⟩ := hostStage_kept hk (beginHandshake_logged ephPriv)
        ((loggedBeginHandshake_stage ephPriv).weaken (fun _ hst => hst) fun _ _ hst =>
          ⟨hst.1, trivial, fun hg => ⟨(hst.2.2 hg).1, (hst.2.2 hg).2.1⟩⟩)
      exact ⟨hkept hg, iff_of_true hfree trivial⟩
  | complete response =>
      obtain ⟨hfree, hkept⟩ := hostStage_kept hk (completeHandshake_logged response)
        (loggedCompleteHandshake_stage response)
      exact ⟨hkept hg, iff_of_true hfree trivial⟩
  | encrypt plaintext => exact ⟨encrypt_kept hk plaintext hg, encrypt_unreserved plaintext⟩
  | verify packet => exact ⟨verify_kept hk packet hg, verify_unreserved packet⟩

/-- A device out of session and no host yet. -/
theorem boot_kept {device : NoiseIkCtx} (hready : device.ready = false) :
    NoncesKept root ⟨device, none⟩ [] where
  sound := .empty
  rooted p d _ hmem := absurd hmem (by simp)
  device hyes := absurd hyes (by rw [hready]; decide)
  host host hhost := by cases hhost

-- ================================================================= refusals

/-- `verify_transport_ack` refuses a packet for its length, its nonce or
its tag. -/
def HostError.refusesPacket (e : HostError) : Prop :=
  e = .missingReceipt ∨ e = .receiptNonce ∨ e = .invalidReceipt

/-- `complete_handshake` refuses a response for its length or its tag. -/
def HostError.refusesResponse (e : HostError) : Prop :=
  e = .responseLength ∨ e = .deviceAuthentication

theorem verifyAck_refused {packet : List UInt8} {host host' : NoiseIKInitiator} {e : HostError}
    (h : verifyTransportAck lib packet host = .error e host') (he : e.refusesPacket) :
    host' = host := by
  rcases @verifyAck_run lib packet host with ⟨e', hrun⟩ | ⟨s, hrun⟩ | hrun | ⟨s, hrun⟩
  · rw [hrun] at h
    cases h
    rfl
  · rw [hrun] at h
    cases h
  · rw [hrun] at h
    cases h
    rcases he with he | he | he <;> cases he
  · rw [hrun] at h
    cases h
    rcases he with he | he | he <;> cases he

theorem mixHash_leaves (data : List UInt8) (ctx : NoiseIkCtx) :
    ∃ x, (mixHash lib data).leaves ctx = { ctx with h := x } := by
  unfold Noise.leaves mixHash
  by_cases hlong : data.length > noiseIkInitMessageLen
  · simp only [if_pos hlong]
    exact ⟨ctx.h, rfl⟩
  · simp only [if_neg hlong]
    cases lib.sha256 (ctx.h.toList ++ data) with
    | none => exact ⟨ctx.h, rfl⟩
    | some x => exact ⟨x, rfl⟩

/-- A reset leaves the three counters at 0, whether or not its hashing
works. -/
theorem resetHandshakeState_counters (ctx : NoiseIkCtx) :
    ((resetHandshakeState lib).leaves ctx).nonceCounter = 0 ∧
      ((resetHandshakeState lib).leaves ctx).receiveNonce = 0 ∧
      ((resetHandshakeState lib).leaves ctx).sendNonce = 0 := by
  unfold Noise.leaves resetHandshakeState
  cases lib.sha256 ikProtocolName with
  | none => exact ⟨rfl, rfl, rfl⟩
  | some x =>
      obtain ⟨y, hleft⟩ := @mixHash_leaves lib ctx.deviceStaticPub.toList
        { ctx.cleared with h := x, ck := x }
      unfold Noise.leaves at hleft
      dsimp only
      rw [hleft]
      exact ⟨rfl, rfl, rfl⟩

/-- A handshake the device refuses advances no counter. -/
theorem respond_refused {controllers : ControllerStore} {responderEph : Option (Key × Key)}
    {message : List UInt8} {cap : Nat} {ctx ctx' : NoiseIkCtx}
    (h : noiseIkHandshakeRespond lib controllers responderEph message cap ctx = (none, ctx')) :
    ctx'.nonceCounter ≤ ctx.nonceCounter ∧ ctx'.receiveNonce ≤ ctx.receiveNonce ∧
      ctx'.sendNonce ≤ ctx.sendNonce := by
  unfold noiseIkHandshakeRespond at h
  split at h
  · cases h
    exact ⟨UInt64.le_refl _, UInt64.le_refl _, UInt64.le_refl _⟩
  · split at h
    · cases h
    · cases h
      obtain ⟨hcipher, hreceive, hsend⟩ := @resetHandshakeState_counters lib _
      rw [hcipher, hreceive, hsend]
      exact ⟨UInt64.zero_le, UInt64.zero_le, UInt64.zero_le⟩

section Refused

variable (origin : NoiseIKInitiator)

/-- The transport's counters are still those of `origin`. -/
def CountsOf (host : NoiseIKInitiator) : Prop :=
  host.sendNonce = origin.sendNonce ∧ host.receiveNonce = origin.receiveNonce

/-- What a completion that raises leaves. -/
def Raised (e : HostError) (host : NoiseIKInitiator) : Prop :=
  CountsOf origin host ∧ (e = .responseLength → host = origin) ∧
    (e = .deviceAuthentication → host.nonce = 0)

variable {origin}

theorem Raised.library {host : NoiseIKInitiator} (hc : CountsOf origin host) :
    Raised origin .library host :=
  ⟨hc, fun h => (by cases h), fun h => (by cases h)⟩

theorem hostMixHash_raised (data : List UInt8) :
    Triple (CountsOf origin) (hostMixHash lib data) (fun _ => CountsOf origin)
      (Raised origin) := by
  intro host hc
  unfold hostMixHash
  cases lib.sha256 (host.h.toList ++ data) with
  | none => exact .library hc
  | some x => exact hc

theorem hostMixDh_raised (priv pub : Key) :
    Triple (CountsOf origin) (hostMixDh lib priv pub)
      (fun _ host => CountsOf origin host ∧ host.nonce = 0) (Raised origin) := by
  refine Triple.bind (Triple.ofOption (fun _ _ _ hc => hc) fun _ _ hc => Raised.library hc)
    fun shared => ?_
  intro host hc
  cases hkeys : lib.extractExpand host.ck shared.toList with
  | none =>
      rw [hostMixKey_none hkeys]
      exact .library hc
  | some keys =>
      rw [hostMixKey_some hkeys]
      exact ⟨hc, rfl⟩

theorem decryptAndHash_raised (ciphertext : List UInt8) :
    Triple (fun host => CountsOf origin host ∧ host.nonce = 0) (decryptAndHash lib ciphertext)
      (fun _ => CountsOf origin) (Raised origin) := by
  rintro host ⟨hc, hzero⟩
  have hkeeps : ∀ e, e ≠ .responseLength → Raised origin e host := fun e he =>
    ⟨hc, fun h => absurd h he, fun _ => hzero⟩
  unfold decryptAndHash
  cases host.key with
  | none => exact hkeeps _ (by decide)
  | some key =>
      cases hostNoiseNonce host.nonce with
      | none => exact hkeeps _ (by decide)
      | some nonce =>
          dsimp only
          cases lib.decrypt key nonce host.h.toList ciphertext with
          | none => exact hkeeps _ (by decide)
          | some plaintext =>
              have hhash : Triple (CountsOf origin)
                  (do hostMixHash lib ciphertext; pure plaintext : Host (List UInt8))
                  (fun _ => CountsOf origin) (Raised origin) :=
                (hostMixHash_raised ciphertext).bind fun _ => Triple.pure fun _ hc => hc
              exact hhash { host with key := some key, nonce := host.nonce + 1 } hc

theorem split_raised :
    Triple (CountsOf origin) (split lib) (fun _ _ => True) (Raised origin) := by
  intro host hc
  cases hkeys : lib.extractExpand host.ck [] with
  | none =>
      rw [split_none hkeys]
      exact .library hc
  | some keys =>
      rw [split_some hkeys]
      trivial

theorem completeHandshake_raised (response : List UInt8) :
    Triple (· = origin) (completeHandshake lib response) (fun _ _ => True) (Raised origin) := by
  refine (Triple.get (Q := fun _ host => host = origin) fun _ h => h).bind fun self => ?_
  have hcounts : ∀ host, host = origin → CountsOf origin host := fun host heq =>
    heq ▸ ⟨rfl, rfl⟩
  have hlength : ∀ host, host = origin → Raised origin .responseLength host := fun host heq =>
    ⟨hcounts host heq, fun _ => heq, fun h => (by cases h)⟩
  cases self.ephPriv with
  | none => exact Triple.throw hlength
  | some ephPriv =>
      refine Triple.ite (fun _ => Triple.throw hlength) fun _ => ?_
      refine Triple.bind ?_ fun ack => Triple.ite
        (fun _ => Triple.throw fun host hc =>
          ⟨hc, fun h => (by cases h), fun h => (by cases h)⟩) fun _ => split_raised
      refine ((hostMixHash_raised _).weaken hcounts fun _ _ h => h).bind fun _ => ?_
      refine (hostMixDh_raised _ _).bind fun _ => ?_
      refine ((hostMixDh_raised _ _).weaken (fun _ h => h.1) fun _ _ h => h).bind fun _ => ?_
      exact decryptAndHash_raised _

end Refused

/-- A response the host refuses advances no counter. -/
theorem completeHandshake_refused {response : List UInt8} {host host' : NoiseIKInitiator}
    {e : HostError} (h : completeHandshake lib response host = .error e host')
    (he : e.refusesResponse) : host'.nonce ≤ host.nonce ∧ host'.sendNonce = host.sendNonce ∧
      host'.receiveNonce = host.receiveNonce := by
  have hraised := @completeHandshake_raised lib host response host rfl
  rw [h] at hraised
  obtain ⟨⟨hsend, hreceive⟩, hlength, htag⟩ := hraised
  refine ⟨?_, hsend, hreceive⟩
  rcases he with he | he
  · rw [hlength he]
  · rw [htag he]
    exact Nat.zero_le _

-- ============================================================== discipline

/-- Nonce discipline, of a history and the state it ends in: under each key
the seals count up from 0 and stay below the reserved nonce, nobody uses
that one, one side seals under each key, and what either side refuses for
its length, nonce or tag advances no counter. -/
structure NonceDiscipline (lib : Crypto) (s : Parties) (h : History) : Prop where
  inOrder : ∀ key, ∃ n ≤ reservedNonce, sealed h key = List.range n
  unreserved : ∀ e ∈ h, Unreserved e
  oneSided : ∀ key p p' n n', .used p .sealing key n true ∈ h →
    .used p' .sealing key n' true ∈ h → p = p'
  packet : ∀ packet cap e ctx, noiseDecryptPacket lib packet cap s.device = .error e ctx →
    ctx = s.device
  message : ∀ controllers responderEph message cap ctx,
    noiseIkHandshakeRespond lib controllers responderEph message cap s.device = (none, ctx) →
      ctx.nonceCounter ≤ s.device.nonceCounter ∧ ctx.receiveNonce ≤ s.device.receiveNonce ∧
        ctx.sendNonce ≤ s.device.sendNonce
  receipt : ∀ host, s.host = some host → ∀ packet e host',
    verifyTransportAck lib packet host = .error e host' → e.refusesPacket → host' = host
  response : ∀ host, s.host = some host → ∀ response e host',
    completeHandshake lib response host = .error e host' → e.refusesResponse →
      host'.nonce ≤ host.nonce ∧ host'.sendNonce = host.sendNonce ∧
        host'.receiveNonce = host.receiveNonce

/-- Seals that count up and skip the reserved nonce stay below it. -/
theorem sealed_below {key : Key} {n : Nat} (hfree : ∀ e ∈ h, Unreserved e)
    (hn : sealed h key = List.range n) : n ≤ reservedNonce := by
  by_contra hlt
  have hmem : reservedNonce ∈ sealed h key := by
    rw [hn]
    exact List.mem_range.mpr (by omega)
  obtain ⟨p, hused⟩ := mem_sealed.mp hmem
  exact hfree _ hused rfl

/-- What a run keeps, and when it leaves the reserved nonce alone. -/
theorem run_kept {device : NoiseIkCtx} (hroot : lib.sha256 proto = some root)
    (hready : device.ready = false) (calls : List PartyCall)
    (hgood : Good root ((parties lib).trace ⟨device, none⟩ calls)) :
    NoncesKept root ((parties lib).final ⟨device, none⟩ calls)
        ((parties lib).trace ⟨device, none⟩ calls) ∧
      ((∀ e ∈ (parties lib).trace ⟨device, none⟩ calls, Unreserved e) ↔
        (parties lib).StepsMeet NonceLeft ⟨device, none⟩ calls) := by
  have hrun := (parties lib).run_inv_iff (A := Good root) (fun _ _ => Good.of_append)
    (fun s h c hk hg => step_kept hroot hk c hg) calls ⟨device, none⟩ [] (boot_kept hready)
    (by rwa [List.nil_append])
  rwa [List.nil_append] at hrun

/-- From a device out of session and no host, over every run whose history
derives symbolically and draws fresh ephemeral keys: the discipline holds
exactly if no call of the run asks the host for the reserved nonce. -/
theorem nonce_discipline {device : NoiseIkCtx} (hroot : lib.sha256 proto = some root)
    (hready : device.ready = false) (calls : List PartyCall)
    (hgood : Good root ((parties lib).trace ⟨device, none⟩ calls)) :
    NonceDiscipline lib ((parties lib).final ⟨device, none⟩ calls)
        ((parties lib).trace ⟨device, none⟩ calls) ↔
      (parties lib).StepsMeet NonceLeft ⟨device, none⟩ calls := by
  obtain ⟨hkept, hiff⟩ := run_kept hroot hready calls hgood
  refine ⟨fun hd => hiff.mp hd.unreserved, fun hmeet => ?_⟩
  have hfree := hiff.mpr hmeet
  exact
    { inOrder := fun key => by
        obtain ⟨n, hn⟩ := hkept.sound.inOrder key
        exact ⟨n, sealed_below hfree hn, hn⟩
      unreserved := hfree
      oneSided := hkept.sound.oneSided
      packet := fun _ _ _ _ => decryptPacket_error
      message := fun _ _ _ _ _ => respond_refused
      receipt := fun _ _ _ _ _ => verifyAck_refused
      response := fun _ _ _ _ _ => completeHandshake_refused }

-- =================================================================== one run

/-- A byte of a message. -/
def checkByte (data : List UInt8) : UInt8 :=
  UInt8.ofNat (data.foldl (fun n b => 3 * n + b.toNat) 7 % 251)

def secondByte (key : Key) : UInt8 := key.toList.getD 1 0

/-- Concrete calls on keys that count by their second byte. -/
def checkCrypto : Crypto where
  sha256 data := some (tagKey (checkByte data))
  hmac key data := some (tagKey (checkByte (secondByte key :: data)))
  hkdf salt ikm :=
    let prk := checkByte (secondByte salt :: ikm)
    let t1 := checkByte [prk, 1]
    some (tagKey t1, tagKey (checkByte (prk :: (List.replicate 32 t1 ++ [2]))))
  scalarmult scalar point := some (tagKey (secondByte scalar ^^^ secondByte point))
  encrypt key nonce _ plaintext :=
    some (plaintext ++ List.replicate 16 (secondByte key + nonce.getD 4 0))
  decrypt key nonce _ ciphertext :=
    if ciphertext.drop (ciphertext.length - 16)
        = List.replicate 16 (secondByte key + nonce.getD 4 0) then
      some (ciphertext.take (ciphertext.length - 16))
    else none

/-- The device with private key 1, before its first session. -/
def benchCtx : NoiseIkCtx :=
  { noiseIkCtxZero with
    deviceStaticPriv := tagKey 1, deviceStaticPub := tagKey 1, controllersSet := true }

/-- The recovery admin with private key 2 connects: ephemeral keys 3 and 4. -/
def nonceSession : List PartyCall :=
  [.connect (tagKey 2) (tagKey 1),
    .begin (tagKey 3),
    .respond (seededStore (tagKey 2)) (some (tagKey 4, tagKey 4))
      (List.replicate 32 3 ++ (List.replicate 32 2 ++ List.replicate 16 183)) 53,
    .complete (List.replicate 32 4 ++ (noiseAck ++ List.replicate 16 214))]

/-- A command and its receipt. -/
def nonceCommand : List PartyCall :=
  [.encrypt [7],
    .decrypt (List.replicate 8 0 ++ ([7] ++ List.replicate 16 132)) 1038,
    .receipt 0 30,
    .verify ([cmdEncrypted] ++ (List.replicate 8 0 ++
      (transportAck ++ ([0] ++ List.replicate 16 226))))]

theorem Good.append_uses {new : History} (hg : Good root h)
    (huse : ∀ e ∈ new, e.isUse = true) : Good root (h ++ new) :=
  ⟨hg.1.append_uses huse, hg.2.append_uses huse⟩

theorem nonceSession_good :
    Good (tagKey (checkByte proto)) ((parties checkCrypto).trace ⟨benchCtx, none⟩ nonceSession) :=
  ⟨by decide +kernel, fresh_of_check (by decide +kernel)⟩

theorem nonceSession_ready :
    (((parties checkCrypto).final ⟨benchCtx, none⟩ nonceSession).host.map
      fun host => (host.isReady, host.sendNonce)) = some (true, 0) := by decide +kernel

/-- A session with one command and its receipt. -/
theorem nonce_discipline_bench :
    NonceDiscipline checkCrypto
      ((parties checkCrypto).final ⟨benchCtx, none⟩ (nonceSession ++ nonceCommand))
      ((parties checkCrypto).trace ⟨benchCtx, none⟩ (nonceSession ++ nonceCommand)) := by
  have hgood : Good (tagKey (checkByte proto))
      ((parties checkCrypto).trace ⟨benchCtx, none⟩ (nonceSession ++ nonceCommand)) := by
    rw [Machine.trace_append]
    exact nonceSession_good.append_uses (by decide +kernel)
  exact (nonce_discipline rfl rfl (nonceSession ++ nonceCommand) hgood).mpr (by decide +kernel)

/-- Each of so many commands is sealed, and the sending counter follows. -/
theorem encrypts_run (hseals : ∀ key nonce ad p, (lib.encrypt key nonce ad p).isSome = true)
    (plaintext : List UInt8) (n : Nat) :
    ∀ (s : Parties) (host : NoiseIKInitiator), s.host = some host → host.isReady = true →
      host.sendNonce + n ≤ 2 ^ 64 →
      ((parties lib).final s (List.replicate n (.encrypt plaintext))).host
          = some { host with sendNonce := host.sendNonce + n } ∧
        ∀ e ∈ (parties lib).trace s (List.replicate n (.encrypt plaintext)), e.isUse = true := by
  induction n with
  | zero =>
      intro s host hhost _ _
      exact ⟨hhost, fun e he => absurd he (by simp)⟩
  | succ n ih =>
      intro s host hhost hready hcount
      have hstep : (parties lib).step s (.encrypt plaintext)
          = ({ s with host := some (leaves (encryptPacket lib plaintext) host) },
            added (loggedEncryptPacket lib plaintext) host) := by
        simp only [parties, Parties.hostRuns, hhost]
      have hnote : leaves (encryptPacket lib plaintext) host
            = { host with sendNonce := host.sendNonce + 1 } ∧
          ∀ e ∈ added (loggedEncryptPacket lib plaintext) host, e.isUse = true := by
        rcases @encryptPacket_note lib plaintext host with
          ⟨-, ⟨-, hno⟩ | ⟨k, nonce, -, -, hfailed⟩⟩ | ⟨-, k, -, hleft, hnote⟩
        · exact absurd ⟨hready, by omega⟩ hno
        · have hsealed := hseals k nonce [] plaintext
          rw [hfailed] at hsealed
          exact absurd hsealed (by decide)
        · rw [hnote]
          exact ⟨hleft, by simp [Event.isUse]⟩
      obtain ⟨hfinal, huses⟩ := ih { s with host := some { host with
        sendNonce := host.sendNonce + 1 } } _ rfl hready (by dsimp only; omega)
      rw [List.replicate_succ, Machine.final_cons, Machine.trace_cons, hstep, hnote.1]
      refine ⟨?_, fun e he => ?_⟩
      · rw [hfinal]
        simp only [Nat.add_assoc, Nat.add_comm 1]
      · rcases List.mem_append.mp he with he | he
        · exact hnote.2 e he
        · exact huses e he

/-- The host is asked for 2^64 commands after a session is set up, with
derivation symbolic and ephemeral keys fresh: it seals the last one under
the reserved nonce. -/
theorem host_seals_reserved :
    Good (tagKey (checkByte proto)) ((parties checkCrypto).trace ⟨benchCtx, none⟩
        (nonceSession ++ List.replicate (2 ^ 64) (.encrypt []))) ∧
      ¬NonceDiscipline checkCrypto
        ((parties checkCrypto).final ⟨benchCtx, none⟩
          (nonceSession ++ List.replicate (2 ^ 64) (.encrypt [])))
        ((parties checkCrypto).trace ⟨benchCtx, none⟩
          (nonceSession ++ List.replicate (2 ^ 64) (.encrypt []))) := by
  obtain ⟨host, hhost, hpair⟩ := Option.map_eq_some_iff.mp nonceSession_ready
  obtain ⟨hready, hcount⟩ := Prod.mk.inj hpair
  have hseals : ∀ key nonce ad p, (checkCrypto.encrypt key nonce ad p).isSome = true :=
    fun _ _ _ _ => rfl
  have hrun : ∀ n, host.sendNonce + n ≤ 2 ^ 64 → _ := fun n =>
    encrypts_run hseals [] n _ host hhost hready
  have hgood : Good (tagKey (checkByte proto)) ((parties checkCrypto).trace ⟨benchCtx, none⟩
      (nonceSession ++ List.replicate (2 ^ 64) (.encrypt []))) := by
    rw [Machine.trace_append]
    exact nonceSession_good.append_uses (hrun _ (by omega)).2
  refine ⟨hgood, fun hd => ?_⟩
  have hlast : List.replicate (2 ^ 64) (PartyCall.encrypt [])
      = List.replicate reservedNonce (.encrypt []) ++ [.encrypt []] :=
    List.replicate_succ'
  have hmeet := (run_kept rfl rfl _ hgood).2.mp hd.unreserved
  rw [hlast, Machine.stepsMeet_append, Machine.stepsMeet_append] at hmeet
  have hnow := (hrun reservedNonce (by rw [hcount]; decide)).1
  refine hmeet.2.2.1 _ hnow hready ?_
  show host.sendNonce + reservedNonce = reservedNonce
  omega

end PicoBridge
