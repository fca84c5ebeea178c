/-
What a frame can do to the device: `command_process_frame`, inverted.

A frame is ignored, or is a handshake that touches the Noise session
only, or opens and has its plaintext dispatched (`frame_cases`). The
rosters move in the last case alone, by what the command does to them
(`frame_rosters`).
-/
import PicoBridge.Noise.Transport
import PicoBridge.Device.Effect

namespace PicoBridge

variable (lib : Crypto)

/-- The frame opens to the command `p`, which the device dispatches from
the state `d₁`. -/
def Dispatches (d : Device) (data p : List UInt8) (d₁ : Device) : Prop :=
  byteOf data 0 = bleCmdEncrypted ∧ 1 < data.length ∧
    ∃ noise, noiseDecryptPacket lib (data.drop 1) noiseIkMaxPlaintext d.noise = .ok p noise ∧
      d₁ = { d with noise := noise }

/-- A frame that `command_process_frame` hands to the handshake. -/
def IsHandshake (data : List UInt8) : Prop :=
  byteOf data 0 = bleCmdNoise ∧ data.length = 1 + noiseIkInitMessageLen

instance (data : List UInt8) : Decidable (IsHandshake data) :=
  inferInstanceAs (Decidable (_ ∧ _))

/-- The device after a dispatched command and its receipt. -/
def afterCommand (d₁ : Device) (env : FrameEnv) (p : List UInt8) (respCap : Nat) :
    Option (List UInt8) × Device :=
  let r := bleHandleAuthenticatedCommand d₁ env p
  sendReceipt lib r.2 respCap r.1

variable {lib} {d : Device} {env : FrameEnv} {data p : List UInt8} {respCap : Nat}

/-- A frame's plaintext is the one it is dispatched with. -/
theorem framePlaintext_iff :
    framePlaintext lib d.noise data = some p ↔ ∃ d₁, Dispatches lib d data p d₁ := by
  unfold framePlaintext
  constructor
  · intro h
    split at h
    next hframe =>
      split at h
      next noise hopen =>
        cases h
        exact ⟨_, hframe.1, hframe.2, noise, hopen, rfl⟩
      next => cases h
    next => cases h
  · rintro ⟨d₁, hcmd, hlen, noise, hopen, rfl⟩
    rw [if_pos ⟨hcmd, hlen⟩, hopen]

variable (lib) in
/-- What a frame does. -/
theorem frame_cases (d : Device) (env : FrameEnv) (data : List UInt8) (respCap : Nat) :
    (commandProcessFrame lib d env data respCap = (none, d) ∧ ¬IsHandshake data ∧
        framePlaintext lib d.noise data = none) ∨
      (IsHandshake data ∧ ∃ response, commandProcessFrame lib d env data respCap
        = (response, { d with noise := (noiseIkHandshakeRespond lib d.controllers
            env.responderEph (data.drop 1) (respCap - 1) d.noise).2 })) ∨
      ∃ p d₁, Dispatches lib d data p d₁ ∧
        commandProcessFrame lib d env data respCap = afterCommand lib d₁ env p respCap := by
  have hkind : bleCmdNoise ≠ bleCmdEncrypted := by decide
  unfold commandProcessFrame
  by_cases hlen : data.length = 0
  · rw [if_pos hlen]
    obtain rfl := List.length_eq_zero_iff.mp hlen
    exact .inl ⟨rfl, by decide, rfl⟩
  rw [if_neg hlen]
  by_cases hnoise : byteOf data 0 = bleCmdNoise
  · rw [if_pos hnoise]
    unfold processNoise
    by_cases hmessage : data.length ≠ 1 + noiseIkInitMessageLen
    · rw [if_pos hmessage]
      refine .inl ⟨rfl, fun h => hmessage h.2, ?_⟩
      unfold framePlaintext
      rw [if_neg fun h => hkind (hnoise.symm.trans h.1)]
    rw [if_neg hmessage]
    refine .inr (.inl ⟨⟨hnoise, not_not.mp hmessage⟩, ?_⟩)
    dsimp only
    split
    · exact ⟨_, rfl⟩
    · split <;> exact ⟨_, rfl⟩
  rw [if_neg hnoise]
  have hnot : ¬IsHandshake data := fun h => hnoise h.1
  by_cases hencrypted : byteOf data 0 = bleCmdEncrypted
  · rw [if_pos hencrypted]
    unfold processEncrypted
    by_cases hshort : data.length ≤ 1
    · rw [if_pos hshort]
      refine .inl ⟨rfl, hnot, ?_⟩
      unfold framePlaintext
      rw [if_neg fun h => absurd h.2 (Nat.not_lt.mpr hshort)]
    rw [if_neg hshort]
    have hlong : 1 < data.length := Nat.not_le.mp hshort
    cases hopen : noiseDecryptPacket lib (data.drop 1) noiseIkMaxPlaintext d.noise with
    | error e noise =>
        obtain rfl := decryptPacket_error hopen
        refine .inl ⟨rfl, hnot, ?_⟩
        unfold framePlaintext
        rw [if_pos ⟨hencrypted, hlong⟩, hopen]
    | ok p noise => exact .inr (.inr ⟨p, _, ⟨hencrypted, hlong, noise, hopen, rfl⟩, rfl⟩)
  · rw [if_neg hencrypted]
    refine .inl ⟨rfl, hnot, ?_⟩
    unfold framePlaintext
    rw [if_neg fun h => hencrypted h.1]

/-- A frame that is dispatched is not ignored and no handshake. -/
theorem frame_dispatched {d₁ : Device} (h : Dispatches lib d data p d₁) (env : FrameEnv)
    (respCap : Nat) :
    commandProcessFrame lib d env data respCap = afterCommand lib d₁ env p respCap := by
  rcases frame_cases lib d env data respCap with
    ⟨-, -, hnone⟩ | ⟨hhandshake, -⟩ | ⟨p', d₂, h', hframe⟩
  · rw [framePlaintext_iff.mpr ⟨d₁, h⟩] at hnone
    cases hnone
  · have hkind := hhandshake.1.symm.trans h.1
    exact absurd hkind (by decide)
  · obtain ⟨-, -, noise, hopen, rfl⟩ := h
    obtain ⟨-, -, noise', hopen', rfl⟩ := h'
    rw [hopen] at hopen'
    cases hopen'
    exact hframe

variable (lib) in
/-- A receipt that is sent was sealed under the send counter. -/
theorem sendReceipt_cases (d : Device) (respCap : Nat) (due : Bool) :
    sendReceipt lib d respCap due = (none, d) ∨
      ∃ receipt, d.noise.sendNonce ≠ uint64Max ∧
        sendReceipt lib d respCap due = (some (bleCmdEncrypted :: receipt),
          { d with noise := { d.noise with sendNonce := d.noise.sendNonce + 1 } }) := by
  unfold sendReceipt
  split
  · exact .inl rfl
  · cases hrun : noiseEncryptTransportAck lib d.cmdAckStatus (respCap - 1) d.noise with
    | error e noise =>
        obtain rfl := encryptAck_error hrun
        exact .inl rfl
    | ok receipt noise =>
        obtain ⟨hmax, rfl⟩ := encryptAck_ok hrun
        exact .inr ⟨receipt, hmax, rfl⟩

variable (lib) in
/-- A receipt moves the send counter only. -/
theorem sendReceipt_noise (d : Device) (respCap : Nat) (due : Bool) :
    ∃ noise, (sendReceipt lib d respCap due).2 = { d with noise := noise } := by
  rcases sendReceipt_cases lib d respCap due with h | ⟨receipt, -, h⟩
  · exact ⟨d.noise, by rw [h]⟩
  · exact ⟨_, by rw [h]⟩

variable (lib) in
/-- A dispatched frame leaves the rosters its command leaves. -/
theorem afterCommand_rosters (d₁ : Device) (env : FrameEnv) (p : List UInt8) (respCap : Nat) :
    let d' := (afterCommand lib d₁ env p respCap).2
    (d'.controllers, d'.store) = rosterAfter d₁ env (controllerCandidate d₁ p) := by
  obtain ⟨noise, h⟩ := sendReceipt_noise lib
    (bleHandleAuthenticatedCommand d₁ env p).2 respCap (bleHandleAuthenticatedCommand d₁ env p).1
  unfold afterCommand
  dsimp only
  rw [h]
  exact (command_effect d₁ env p).roster

/-- A dispatched frame and its receipt move the two counters of the
session. -/
theorem afterCommand_noise {d₁ : Device} (h : Dispatches lib d data p d₁) (env : FrameEnv)
    (respCap : Nat) :
    ∃ sendNonce, (afterCommand lib d₁ env p respCap).2.noise
      = { d.noise with receiveNonce := d.noise.receiveNonce + 1, sendNonce := sendNonce } := by
  obtain ⟨-, -, noise, hopen, rfl⟩ := h
  obtain ⟨-, -, rfl⟩ := decryptPacket_ok hopen
  have hcommand := (command_effect { d with noise := { d.noise with
    receiveNonce := d.noise.receiveNonce + 1 } } env p).noise
  unfold afterCommand
  dsimp only
  rcases sendReceipt_cases lib (bleHandleAuthenticatedCommand { d with noise := { d.noise with
    receiveNonce := d.noise.receiveNonce + 1 } } env p).2 respCap (bleHandleAuthenticatedCommand
    { d with noise := { d.noise with receiveNonce := d.noise.receiveNonce + 1 } } env p).1 with
    hsend | ⟨receipt, -, hsend⟩
  · rw [hsend, hcommand]
    exact ⟨d.noise.sendNonce, rfl⟩
  · rw [hsend]
    dsimp only
    rw [hcommand]
    exact ⟨d.noise.sendNonce + 1, rfl⟩

variable (lib) in
/-- The rosters after a frame. -/
theorem frame_rosters (d : Device) (env : FrameEnv) (data : List UInt8) (respCap : Nat) :
    let d' := (commandProcessFrame lib d env data respCap).2
    (d'.controllers, d'.store) = (d.controllers, d.store) ∨
      ∃ p d₁, Dispatches lib d data p d₁ ∧
        (d'.controllers, d'.store) = rosterAfter d₁ env (controllerCandidate d₁ p) := by
  dsimp only
  rcases frame_cases lib d env data respCap with
    ⟨h, -⟩ | ⟨-, response, h⟩ | ⟨p, d₁, hdispatch, h⟩
  · rw [h]
    exact .inl rfl
  · rw [h]
    exact .inl rfl
  · rw [h]
    exact .inr ⟨p, d₁, hdispatch, afterCommand_rosters lib d₁ env p respCap⟩

end PicoBridge
