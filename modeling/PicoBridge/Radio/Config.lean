/-
`firmware/radio/radio_config.c` and `radio_provision_flash.c`: the Wi-Fi
record, read from and built into a flash sector, and the sector's writing
and clearing.

# What is modelled how

- A parsed `struct radio_config` keeps its strings without the NUL
  padding and its certificate and key as the bytes they point to. The
  characters of an accepted ssid or psk are printable, so `strncmp` of two
  of them is equality.
- `radio_config_build2` returns the sector it fills, or none where it
  returns false without touching it.
- Flash is the one sector; `flash_safe_execute` is as in Store/Flash.lean.
-/
import PicoBridge.Store.Flash

namespace PicoBridge

open Lib.NorFlash (Op run Publishes publishes_run)

-- ============================================================ the record

def radioSectorSize : Nat := 4096

/-- `struct radio_config`. -/
structure RadioConfig where
  ssid : List UInt8
  psk : List UInt8
  cert : List UInt8
  key : List UInt8
  deriving DecidableEq

/-- `n` bytes of a sector from an offset. -/
def bytesAt (data : Sector) (offset n : Nat) : List UInt8 :=
  (List.range n).map fun i => byteAt data (offset + i)

/-- "PBRAD01\0". -/
def radioMagic1 : List UInt8 := [80, 66, 82, 65, 68, 48, 49, 0]

/-- "PBRAD02\0". -/
def radioMagic2 : List UInt8 := [80, 66, 82, 65, 68, 48, 50, 0]

/-- Printable ASCII. -/
def printable (c : UInt8) : Bool := 32 ≤ c && c ≤ 126

/-- `parse_common`. -/
def parseCommon (sector : Option Sector) (n : Nat) (magic : List UInt8)
    (schema pskMin : Nat) (certsMandatory : Bool) : Option RadioConfig :=
  match sector with
  | none => none
  | some s =>
      if n ≠ radioSectorSize then none
      else if bytesAt s 0 8 ≠ magic ∨ leAt s 8 2 ≠ schema then none
      else
        let a := leAt s 16 2
        let b := leAt s 18 2
        let c := leAt s 20 2
        let d := leAt s 22 2
        let total := leAt s 10 2
        if a < 1 ∨ a > 32 ∨ b < pskMin ∨ b > 63 then none
        else if certsMandatory ∧ (c < 1 ∨ c > 2048 ∨ d < 1 ∨ d > 1024) then none
        else if ¬certsMandatory ∧ (c > 2048 ∨ d > 1024 ∨ ¬(c = 0 ↔ d = 0)) then none
        else if 24 + a + b + c + d > n then none
        else if total ≠ 24 + a + b + c + d ∨ total > n then none
        else if ¬(bytesAt s 24 (a + b)).all printable then none
        else if ¬(bytesAt s total (n - total)).all (· == 255) then none
        else if crc32 (bytesAt s 16 (total - 16)) ≠ UInt32.ofNat (leAt s 12 4) then none
        else
          some
            { ssid := bytesAt s 24 a
              psk := bytesAt s (24 + a) b
              cert := bytesAt s (24 + a + b) c
              key := bytesAt s (24 + a + b + c) d }

/-- `radio_config_parse`. -/
def radioConfigParse (sector : Option Sector) (n : Nat) : Option RadioConfig :=
  parseCommon sector n radioMagic1 1 20 true

/-- `radio_config_parse2`. -/
def radioConfigParse2 (sector : Option Sector) (n : Nat) : Option RadioConfig :=
  parseCommon sector n radioMagic2 2 8 false

/-- The four length fields of a record without certificates. -/
def radioLens (ssid psk : List UInt8) : List UInt8 :=
  leBytes 2 ssid.length ++ leBytes 2 psk.length ++ [0, 0, 0, 0]

/-- The record `radio_config_build2` writes. -/
def radioRecord (ssid psk : List UInt8) : List UInt8 :=
  radioMagic2 ++ [2, 0] ++ leBytes 2 (24 + ssid.length + psk.length) ++
    leBytes 4 (crc32 (radioLens ssid psk ++ ssid ++ psk)).toNat ++
    radioLens ssid psk ++ ssid ++ psk

/-- `radio_config_build2`. -/
def radioConfigBuild2 (ssid psk : List UInt8) : Option Sector :=
  if ssid.length < 1 ∨ ssid.length > 32 then none
  else if psk.length < 8 ∨ psk.length > 63 then none
  else if ¬ssid.all printable ∨ ¬psk.all printable then none
  else some fun i => (radioRecord ssid psk).getD i 0xff

-- ============================================================== the flash

/-- `radio_program_sector`: erase, then every page. -/
def radioProgramOps (image : Sector) : List (Op (Fin 4096)) :=
  .erase :: (List.range 16).map fun page => .program (pageRegion page) image

/-- The whole sector is programmed. -/
theorem radioProgramOps_run (image radio : Sector) : run (radioProgramOps image) radio = image := by
  have hbody : Publishes image (fun _ => False)
      ((List.range 16).map fun page => Op.program (pageRegion page) image) := by
    refine ⟨fun op hop => ?_, fun i _ => ?_⟩
    · obtain ⟨page, -, rfl⟩ := List.mem_map.mp hop
      exact ⟨_, _, rfl, fun i _ => ⟨False.elim, fun _ => rfl⟩⟩
    · refine ⟨_, _, List.mem_map.mpr ⟨i.val / flashPageSize, ?_, rfl⟩, decide_eq_true rfl⟩
      have := i.isLt
      rw [List.mem_range]
      simp only [flashPageSize]
      omega
  funext i
  exact publishes_run hbody id

/-- `radio_provision_flash_write_and_verify`: the result and the sector
after it. -/
def radioProvisionFlashWriteAndVerify (radio : Sector) (image : Sector) (exec : FlashExec) :
    Bool × Sector :=
  match radioConfigParse2 (some image) radioSectorSize with
  | none => (false, radio)
  | some candidate =>
      let readback := run (radioProgramOps image) radio
      match exec with
      | .failed ran => (false, if ran then readback else radio)
      | .ok =>
          if readback ≠ image then (false, readback)
          else
            match radioConfigParse2 (some readback) radioSectorSize with
            | none => (false, readback)
            | some persisted =>
                (persisted.ssid == candidate.ssid && persisted.psk == candidate.psk, readback)

/-- `radio_provision_flash_read`. -/
def radioProvisionFlashRead (radio : Sector) : Option RadioConfig :=
  radioConfigParse2 (some radio) radioSectorSize

/-- `radio_provision_flash_clear`. -/
def radioProvisionFlashClear (radio : Sector) (exec : FlashExec) : Bool × Sector :=
  let readback := run [.erase] radio
  match exec with
  | .failed ran => (false, if ran then readback else radio)
  | .ok => (decide (∀ i, readback i = 0xff), readback)

end PicoBridge
