/-
What the four transport calls of a session do when they succeed, and that
they change nothing when they fail.

Each inversion names the AEAD call that was made and under which counter;
whatever is proved of a session goes through these.
-/
import PicoBridge.Noise.Responder
import PicoBridge.Noise.Initiator

namespace PicoBridge

variable {lib : Crypto}

-- ============================================================== the device

theorem decryptPacket_error {packet : List UInt8} {cap : Nat} {ctx ctx' : NoiseIkCtx}
    {e : Unit} (h : noiseDecryptPacket lib packet cap ctx = .error e ctx') : ctx' = ctx := by
  unfold noiseDecryptPacket at h
  split at h
  · cases h
    rfl
  split at h
  · cases h
    rfl
  split at h
  · cases h
    rfl
  split at h
  · cases h
    rfl
  · cases h

/-- A packet is decrypted under the receive counter, which counts on. -/
theorem decryptPacket_ok {packet p : List UInt8} {cap : Nat} {ctx ctx' : NoiseIkCtx}
    (h : noiseDecryptPacket lib packet cap ctx = .ok p ctx') :
    ctx.receiveNonce ≠ uint64Max ∧
      lib.decrypt ctx.receiveKey (noiseNonce ctx.receiveNonce) []
        (packet.drop noiseIkTransportNonceLen) = some p ∧
      ctx' = { ctx with receiveNonce := ctx.receiveNonce + 1 } := by
  unfold noiseDecryptPacket at h
  split at h
  next => cases h
  next hready =>
    split at h
    next => cases h
    next =>
      split at h
      next => cases h
      next =>
        split at h
        next => cases h
        next hopen =>
          cases h
          exact ⟨fun hmax => hready (.inr (.inr hmax)), hopen, rfl⟩

/-- A packet that opens has a plaintext within the limit. -/
theorem decryptPacket_fits {packet p : List UInt8} {cap : Nat} {ctx ctx' : NoiseIkCtx}
    (h : noiseDecryptPacket lib packet cap ctx = .ok p ctx') :
    packet.length - noiseIkTransportOverhead ≤ noiseIkMaxPlaintext := by
  unfold noiseDecryptPacket at h
  split at h
  next => cases h
  next =>
    split at h
    next => cases h
    next hfits => exact Nat.not_lt.mp fun hlong => hfits (.inr hlong)

/-- A packet that opens has the receive counter at its head. -/
theorem decryptPacket_counter {packet p : List UInt8} {cap : Nat} {ctx ctx' : NoiseIkCtx}
    (h : noiseDecryptPacket lib packet cap ctx = .ok p ctx') :
    packet.take noiseIkTransportNonceLen = leBytes 8 ctx.receiveNonce.toNat := by
  unfold noiseDecryptPacket at h
  split at h
  next => cases h
  next hready =>
    split at h
    next => cases h
    next =>
      split at h
      next => cases h
      next hcounter =>
        have hlong : ¬packet.length < noiseIkTransportOverhead :=
          fun hshort => hready (.inr (.inl hshort))
        have hlen : (packet.take noiseIkTransportNonceLen).length = 8 := by
          rw [List.length_take]
          unfold noiseIkTransportOverhead noiseIkTransportNonceLen at *
          omega
        rw [← leBytes_leValue (packet.take noiseIkTransportNonceLen), hlen,
          not_not.mp hcounter]

theorem encryptAck_error {status : UInt8} {cap : Nat} {ctx ctx' : NoiseIkCtx} {e : Unit}
    (h : noiseEncryptTransportAck lib status cap ctx = .error e ctx') : ctx' = ctx := by
  unfold noiseEncryptTransportAck at h
  split at h
  · cases h
    rfl
  split at h
  · cases h
    rfl
  · cases h

/-- A receipt is sealed under the send counter, which counts on. -/
theorem encryptAck_ok {status : UInt8} {cap : Nat} {ctx ctx' : NoiseIkCtx}
    {receipt : List UInt8} (h : noiseEncryptTransportAck lib status cap ctx = .ok receipt ctx') :
    ctx.sendNonce ≠ uint64Max ∧ ctx' = { ctx with sendNonce := ctx.sendNonce + 1 } := by
  unfold noiseEncryptTransportAck at h
  split at h
  next => cases h
  next hready =>
    split at h
    next => cases h
    next =>
      cases h
      exact ⟨fun hmax => hready (.inr (.inr hmax)), rfl⟩

-- ================================================================ the host

/-- A command is sealed under the send counter, which counts on. -/
theorem encryptPacket_ok {p frame : List UInt8} {host host' : NoiseIKInitiator}
    (h : encryptPacket lib p host = .ok frame host') :
    host' = { host with sendNonce := host.sendNonce + 1 } := by
  unfold encryptPacket at h
  split at h
  next =>
    split at h
    next => cases h
    next =>
      split at h
      next => cases h
      next =>
        cases h
        rfl
  next => cases h

/-- A host in a session seals every command. -/
theorem encryptPacket_returns (hlib : lib.Lawful) {host : NoiseIKInitiator} {counter : UInt64}
    (hready : host.isReady = true) (hcount : host.sendNonce = counter.toNat)
    (p : List UInt8) : ∃ frame host', encryptPacket lib p host = .ok frame host' := by
  obtain ⟨hsend, hreceive⟩ := Bool.and_eq_true_iff.mp hready
  obtain ⟨sendKey, hsend⟩ := Option.isSome_iff_exists.mp hsend
  obtain ⟨receiveKey, hreceive⟩ := Option.isSome_iff_exists.mp hreceive
  obtain ⟨ciphertext, hseal, -⟩ := hlib.encrypt_returns sendKey (noiseNonce counter) [] p
  have hnonce : hostNoiseNonce host.sendNonce = some (noiseNonce counter) := by
    rw [hcount, hostNoiseNonce_toNat]
  have hrun : encryptPacket lib p host
      = .ok ([cmdEncrypted] ++ leBytes 8 host.sendNonce ++ ciphertext)
        { host with sendNonce := host.sendNonce + 1 } := by
    simp only [encryptPacket, hsend, hreceive, hnonce, hseal]
  exact ⟨_, _, hrun⟩

/-- A command is sealed in 25 bytes more, of which the type is the
first. -/
theorem sealed_shape (hlib : lib.Lawful) {host host' : NoiseIKInitiator} {p frame : List UInt8}
    (h : encryptPacket lib p host = .ok frame host') :
    frame.length = p.length + 25 ∧ frame.head? = some cmdEncrypted := by
  unfold encryptPacket at h
  split at h
  next =>
    split at h
    next => cases h
    next =>
      split at h
      next => cases h
      next ciphertext hseal =>
        cases h
        refine ⟨?_, rfl⟩
        rw [List.length_append, List.length_append, leBytes_length, hlib.encrypt_length hseal]
        show 1 + 8 + (p.length + 16) = p.length + 25
        omega
  next => cases h

/-- The packet opens under the host's receive counter, to a receipt of a
status. -/
structure Receipt (lib : Crypto) (host : NoiseIKInitiator) (packet : List UInt8)
    (key : Key) (nonce plaintext : List UInt8) : Prop where
  withKey : host.receiveKey = some key
  underNonce : hostNoiseNonce host.receiveNonce = some nonce
  opens : lib.decrypt key nonce [] (packet.drop 9) = some plaintext

/-- A status is verified, be it 0 or not, on a receipt that opens, and
the receive counter counts on. -/
theorem verifyAck_verified {packet : List UInt8} {host host' : NoiseIKInitiator} {s : UInt8}
    (h : verifyTransportAck lib packet host = .ok s host' ∨
      verifyTransportAck lib packet host = .error (.rejected s) host') :
    ∃ key nonce plaintext, Receipt lib host packet key nonce plaintext ∧
      s = plaintext.getLastD 0 ∧
      host' = { host with receiveNonce := host.receiveNonce + 1 } := by
  unfold verifyTransportAck at h
  split at h
  next hsend hreceive =>
    split at h
    next => rcases h with h | h <;> cases h
    next =>
      split at h
      next => rcases h with h | h <;> cases h
      next =>
        split at h
        next => rcases h with h | h <;> cases h
        next nonce hnonce =>
          split at h
          next => rcases h with h | h <;> cases h
          next plaintext hopen =>
            refine ⟨_, nonce, plaintext, ⟨hreceive, hnonce, hopen⟩, ?_⟩
            dsimp only at h
            split at h
            next => rcases h with h | h <;> cases h
            next =>
              split at h
              next =>
                rcases h with h | h <;> cases h
                exact ⟨rfl, rfl⟩
              next =>
                rcases h with h | h <;> cases h
                exact ⟨rfl, rfl⟩
  next => rcases h with h | h <;> cases h

-- ============================================================ round trips

/-- A command the host seals opens on a device in step with it. -/
theorem decryptPacket_encryptPacket (hlib : lib.Lawful) {host host' : NoiseIKInitiator}
    {ctx : NoiseIkCtx} {p frame : List UInt8} (hready : ctx.ready = true)
    (hkey : host.sendKey = some ctx.receiveKey) (hcount : host.sendNonce = ctx.receiveNonce.toNat)
    (hmax : ctx.receiveNonce ≠ uint64Max) (hlen : p.length ≤ noiseIkMaxPlaintext)
    (h : encryptPacket lib p host = .ok frame host') :
    ∃ packet, frame = cmdEncrypted :: packet ∧ 0 < packet.length ∧
      noiseDecryptPacket lib packet noiseIkMaxPlaintext ctx
        = .ok p { ctx with receiveNonce := ctx.receiveNonce + 1 } := by
  unfold encryptPacket at h
  rw [hkey, hcount, hostNoiseNonce_toNat] at h
  split at h
  next sendKey _ hsend _ =>
    cases hsend
    split at h
    next => cases h
    next nonce hnonce =>
      cases hnonce
      split at h
      next => cases h
      next ciphertext hseal =>
        cases h
        have hsealed := hlib.encrypt_length hseal
        have hbytes := leBytes_length 8 ctx.receiveNonce.toNat
        refine ⟨leBytes 8 ctx.receiveNonce.toNat ++ ciphertext, rfl, ?_, ?_⟩
        · rw [List.length_append]
          omega
        have hlength : (leBytes 8 ctx.receiveNonce.toNat ++ ciphertext).length
            = p.length + noiseIkTransportOverhead := by
          rw [List.length_append, hbytes, hsealed]
          show 8 + (p.length + 16) = p.length + 24
          omega
        have htake : (leBytes 8 ctx.receiveNonce.toNat ++ ciphertext).take
            noiseIkTransportNonceLen = leBytes 8 ctx.receiveNonce.toNat := List.take_left' hbytes
        have hdrop : (leBytes 8 ctx.receiveNonce.toNat ++ ciphertext).drop
            noiseIkTransportNonceLen = ciphertext := List.drop_left' hbytes
        unfold noiseDecryptPacket
        rw [if_neg, if_neg, if_neg, hdrop, hlib.decrypt_encrypt _ _ _ _ _ hseal]
        · rw [htake, leValue_counter]
          exact not_not.mpr rfl
        · rw [hlength]
          omega
        · rw [hlength, hready]
          rintro (hnot | hshort | hexhausted)
          · exact hnot rfl
          · omega
          · exact hmax hexhausted
  next => cases h

/-- A receipt the device seals is verified by a host in step with it, as
the status it carries. -/
theorem verifyAck_encryptAck (hlib : lib.Lawful) {host : NoiseIKInitiator}
    {ctx ctx' : NoiseIkCtx} {status : UInt8} {cap : Nat} {receipt : List UInt8}
    (hready : host.isReady = true) (hkey : host.receiveKey = some ctx.sendKey)
    (hcount : host.receiveNonce = ctx.sendNonce.toNat)
    (h : noiseEncryptTransportAck lib status cap ctx = .ok receipt ctx') :
    let host' := { host with receiveNonce := host.receiveNonce + 1 }
    verifyTransportAck lib (cmdEncrypted :: receipt) host
      = if status ≠ 0 then .error (.rejected status) host' else .ok status host' := by
  intro host'
  obtain ⟨hsend, -⟩ := Bool.and_eq_true_iff.mp hready
  obtain ⟨sendKey, hsend⟩ := Option.isSome_iff_exists.mp hsend
  unfold noiseEncryptTransportAck at h
  split at h
  next => cases h
  next =>
    obtain ⟨ciphertext, hseal, hlen⟩ := hlib.encrypt_returns ctx.sendKey
      (noiseNonce ctx.sendNonce) [] (transportAck ++ [status])
    rw [hseal] at h
    cases h
    have hbytes : ((List.range 8).map fun i => (ctx.sendNonce >>> UInt64.ofNat (8 * i)).toUInt8)
        = leBytes 8 ctx.sendNonce.toNat := by
      refine List.map_congr_left fun i hi => ?_
      exact (leByte_eq_shift ctx.sendNonce (List.mem_range.mp hi)).symm
    have hlength := leBytes_length 8 ctx.sendNonce.toNat
    have htake : (leBytes 8 ctx.sendNonce.toNat ++ ciphertext).take 8
        = leBytes 8 ctx.sendNonce.toNat := List.take_left' hlength
    have hdrop : (leBytes 8 ctx.sendNonce.toNat ++ ciphertext).drop 8 = ciphertext :=
      List.drop_left' hlength
    unfold verifyTransportAck
    rw [hsend, hkey, hbytes]
    dsimp only
    rw [if_neg, List.drop_succ_cons, List.drop_zero, htake, leValue_counter, ← hcount,
      if_neg (not_not.mpr rfl), hcount, hostNoiseNonce_toNat, List.drop_succ_cons, hdrop]
    · dsimp only
      rw [hlib.decrypt_encrypt _ _ _ _ _ hseal]
      dsimp only
      rw [if_neg (by rintro (hne | hne) <;> exact hne rfl),
        show (transportAck ++ [status]).getLastD 0 = status from rfl, ← hcount, ← hsend, ← hkey]
    · rw [List.length_cons, List.length_append, hlength, hlen]
      rintro (hne | hne) <;> exact hne rfl

end PicoBridge
