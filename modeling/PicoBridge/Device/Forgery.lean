/-
Forged command frames: frames with CMD_ENCRYPTED that are not sealed
under the session's receive key with the nonce that the device expects.

# The argument

`noise_decrypt_packet` writes to the session only once the tag has been
verified, and by then the length and the nonce of the packet have been
compared. What it opens is therefore sealed under the nonce it expects
(`open_sealed`), and a frame that is not leaves the device as it was,
with no response (`forged_ignored`). The device then goes through the
same states without it.
-/
import PicoBridge.Lib.Unwinding
import PicoBridge.Device.Outsider

namespace PicoBridge

open Lib (Machine Unwinding)
open Lib.Machine (everything own)

variable (lib : Crypto)

-- ============================================================ the forgeries

/-- The AEAD opens nothing that it would not have sealed, as decryption
checks the tag of what it is given. -/
def Crypto.OpensSealed : Prop :=
  ∀ key nonce ad plaintext ciphertext, lib.decrypt key nonce ad ciphertext = some plaintext →
    lib.encrypt key nonce ad plaintext = some ciphertext

/-- A command frame that is sealed under a key, with a nonce. -/
def SealedUnder (key : Key) (nonce : UInt64) (data : List UInt8) : Prop :=
  ∃ plaintext ciphertext, lib.encrypt key (noiseNonce nonce) [] plaintext = some ciphertext ∧
    data = bleCmdEncrypted :: (leBytes 8 nonce.toNat ++ ciphertext)

/-- A command frame that is not sealed for the session, whatever its
length and its nonce. -/
structure Forged (noise : NoiseIkCtx) (data : List UInt8) : Prop where
  command : byteOf data 0 = bleCmdEncrypted
  unsealed : ¬SealedUnder lib noise.receiveKey noise.receiveNonce data

variable {lib}

/-- A frame that opens is sealed for the session. -/
theorem open_sealed (hlib : lib.OpensSealed) {noise : NoiseIkCtx} {data p : List UInt8}
    (h : framePlaintext lib noise data = some p) :
    SealedUnder lib noise.receiveKey noise.receiveNonce data := by
  unfold framePlaintext at h
  split at h
  next hframe =>
    split at h
    next after hopen =>
      obtain ⟨-, hdecrypt, -⟩ := decryptPacket_ok hopen
      have hcounter := decryptPacket_counter hopen
      refine ⟨_, _, hlib _ _ _ _ _ hdecrypt, ?_⟩
      rw [← hcounter, List.take_append_drop]
      cases data with
      | nil => exact absurd hframe.2 (by decide)
      | cons cmd packet => exact congrArg (· :: packet) hframe.1
    next => cases h
  next => cases h

/-- A forged frame leaves the device and has no response. -/
theorem forged_ignored (hlib : lib.OpensSealed) {d : Device} {data : List UInt8}
    (h : Forged lib d.noise data) (env : FrameEnv) (respCap : Nat) :
    commandProcessFrame lib d env data respCap = (none, d) := by
  rcases frame_cases lib d env data respCap with
    ⟨hframe, -⟩ | ⟨hhandshake, -⟩ | ⟨p, d₁, hdispatch, -⟩
  · exact hframe
  · exact absurd (hhandshake.1.symm.trans h.command) (by decide)
  · exact absurd (open_sealed hlib (framePlaintext_iff.mpr ⟨d₁, hdispatch⟩)) h.unsealed

/-- The calls of a run between which forged frames are inserted. -/
theorem forged_unwinding (hlib : lib.OpensSealed) :
    Unwinding (callMachine lib) (fun c : Call => [c])
      (fun s c => Forged lib s.1.noise c.data) (fun s t => s.1 = t.1) where
  alike := by
    rintro ⟨d, spent⟩ ⟨_, spent'⟩ rfl c
    exact ⟨rfl, rfl⟩
  inserted := by
    rintro ⟨d, spent⟩ ⟨_, spent'⟩ c rfl hforged
    exact congrArg Prod.snd (forged_ignored hlib hforged c.env bridgeTransportResponseMax)

/-- Frames that are forged where they are handed over can be left out:
the device ends the same, and every other call has the same report. -/
theorem forged_calls_ignored (hlib : lib.OpensSealed) (d : Device) (spent : List Spent)
    {cs : List (Call ⊕ Call)}
    (hforged : (callMachine lib).Inserts (fun c => [c])
      (fun s c => Forged lib s.1.noise c.data) (d, spent) cs) :
    ((callMachine lib).final (d, spent) (everything (fun c => [c]) cs)).1
        = ((callMachine lib).final (d, spent) (own cs)).1 ∧
      ((callMachine lib).inserting (fun c => [c])).trace (d, spent) cs
        = (callMachine lib).trace (d, spent) (own cs) :=
  (forged_unwinding hlib).run cs rfl hforged

end PicoBridge
