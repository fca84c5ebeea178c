/-
`tools/pico_bridge_ctl.py`: the plaintext command packets of the host,
and what the handlers read of them.

# What is modelled how

A field is a Python integer. `bytearray.append` and `struct.pack` raise
where it does not fit; `none` is that. `bytes([..])` raises likewise.
-/
import PicoBridge.Device.Dispatch

namespace PicoBridge

-- ============================================================== the builders

def cmdStage : UInt8 := 1
def cmdConfirm : UInt8 := 2
def cmdCancel : UInt8 := 3

/-- `packet.append(n)`. -/
def appendByte (n : Nat) : Option (List UInt8) := if n < 256 then some [UInt8.ofNat n] else none

/-- `struct.pack("<H", n)`. -/
def packH (n : Nat) : Option (List UInt8) := if n < 256 ^ 2 then some (leBytes 2 n) else none

/-- `struct.pack("<I", n)`. -/
def packI (n : Nat) : Option (List UInt8) := if n < 256 ^ 4 then some (leBytes 4 n) else none

/-- `build_stage_packet`. -/
def buildStagePacket (owner cmdId layout mode flags : Nat) (payloadBytes : List UInt8) :
    Option (List UInt8) := do
  let owner ← packI owner
  let cmdId ← packI cmdId
  let layout ← appendByte layout
  let mode ← appendByte mode
  let flags ← appendByte flags
  let length ← packH payloadBytes.length
  some ([cmdStage] ++ owner ++ cmdId ++ layout ++ mode ++ flags ++ length ++ payloadBytes)

/-- The two packets that name a job. -/
def buildJobPacket (cmd : UInt8) (owner cmdId : Nat) : Option (List UInt8) := do
  let owner ← packI owner
  let cmdId ← packI cmdId
  some ([cmd] ++ owner ++ cmdId)

/-- `build_confirm_packet`. -/
def buildConfirmPacket (owner cmdId : Nat) : Option (List UInt8) :=
  buildJobPacket cmdConfirm owner cmdId

/-- `build_cancel_packet`. -/
def buildCancelPacket (owner cmdId : Nat) : Option (List UInt8) :=
  buildJobPacket cmdCancel owner cmdId

-- =============================================================== the fields

theorem packI_toNat (n : UInt32) : packI n.toNat = some (leBytes 4 n.toNat) :=
  if_pos n.toNat_lt

theorem appendByte_toNat (b : UInt8) : appendByte b.toNat = some [b] := by
  rw [appendByte, if_pos b.toNat_lt, UInt8.ofNat_toNat]

theorem u32_leBytes (n : UInt32) : UInt32.ofNat (leValue (leBytes 4 n.toNat)) = n := by
  have hlt : n.toNat < 256 ^ 4 := n.toNat_lt
  rw [leValue_leBytes, Nat.mod_eq_of_lt hlt]
  exact UInt32.ofNat_toNat

/-- The header of a stage packet, field by field. -/
def stageHeader (owner id : UInt32) (layout mode flags : UInt8) (length : Nat) : List UInt8 :=
  [cmdStage] ++ leBytes 4 owner.toNat ++ leBytes 4 id.toNat ++ [layout] ++ [mode] ++ [flags] ++
    leBytes 2 length

theorem buildStagePacket_eq (owner id : UInt32) (layout mode flags : UInt8) {payload : List UInt8}
    (h : payload.length < 256 ^ 2) :
    buildStagePacket owner.toNat id.toNat layout.toNat mode.toNat flags.toNat payload
      = some (stageHeader owner id layout mode flags payload.length ++ payload) := by
  unfold buildStagePacket
  rw [packI_toNat, packI_toNat, appendByte_toNat, appendByte_toNat, appendByte_toNat, packH,
    if_pos h]
  rfl

/-- A packet that is built has a text that its length field can tell. -/
theorem buildStagePacket_some (owner id : UInt32) (layout mode flags : UInt8)
    {payload packet : List UInt8}
    (h : buildStagePacket owner.toNat id.toNat layout.toNat mode.toNat flags.toNat payload
      = some packet) :
    payload.length < 256 ^ 2 ∧
      packet = stageHeader owner id layout mode flags payload.length ++ payload := by
  have hlength : payload.length < 256 ^ 2 := by
    by_contra hlong
    unfold buildStagePacket at h
    rw [packI_toNat, packI_toNat, appendByte_toNat, appendByte_toNat, appendByte_toNat, packH,
      if_neg hlong] at h
    cases h
  rw [buildStagePacket_eq owner id layout mode flags hlength] at h
  exact ⟨hlength, (Option.some.inj h).symm⟩

/-- A packet that names a job. -/
def jobPacket (cmd : UInt8) (owner id : UInt32) : List UInt8 :=
  [cmd] ++ leBytes 4 owner.toNat ++ leBytes 4 id.toNat

theorem buildJobPacket_eq (cmd : UInt8) (owner id : UInt32) :
    buildJobPacket cmd owner.toNat id.toNat = some (jobPacket cmd owner id) := by
  unfold buildJobPacket
  rw [packI_toNat, packI_toNat]
  rfl

-- ============================================================ what is read

section Stage

variable (owner id : UInt32) (layout mode flags : UInt8) (length : Nat) (payload : List UInt8)

@[simp] theorem stageHeader_length : (stageHeader owner id layout mode flags length).length = 14 :=
  rfl

theorem stageHeader_cmd :
    byteOf (stageHeader owner id layout mode flags length ++ payload) 0 = cmdStage := rfl

theorem stageHeader_owner :
    u32Of (stageHeader owner id layout mode flags length ++ payload) 1 = owner :=
  u32_leBytes owner

theorem stageHeader_id :
    u32Of (stageHeader owner id layout mode flags length ++ payload) 5 = id :=
  u32_leBytes id

theorem stageHeader_layout :
    byteOf (stageHeader owner id layout mode flags length ++ payload) 9 = layout := rfl

theorem stageHeader_mode :
    byteOf (stageHeader owner id layout mode flags length ++ payload) 10 = mode := rfl

theorem stageHeader_flags :
    byteOf (stageHeader owner id layout mode flags length ++ payload) 11 = flags := rfl

theorem stageHeader_ulen (h : length < 256 ^ 2) :
    u16Of (stageHeader owner id layout mode flags length ++ payload) 12 = length := by
  have hread : u16Of (stageHeader owner id layout mode flags length ++ payload) 12
      = leValue (leBytes 2 length) := rfl
  rw [hread, leValue_leBytes, Nat.mod_eq_of_lt h]

theorem stageHeader_payload :
    (stageHeader owner id layout mode flags length ++ payload).drop 14 = payload := rfl

end Stage

/-- A stage packet with a text of up to 1024 bytes is the stage it
names. -/
theorem bleHandleStage_packet (core : BridgeCore) (bleNowMs : UInt32) (owner id : UInt32)
    (layout mode flags : UInt8) {payload : List UInt8}
    (h : payload.length ≤ bridgeMaxInputBytes) :
    bleHandleStage core bleNowMs
        (stageHeader owner id layout mode flags payload.length ++ payload)
      = bridgeCoreStage core owner id (if layout = 2 then bridgeLayoutDe else bridgeLayoutUs)
          (if mode = 2 then bridgeModeText else bridgeModePassword) flags (some payload)
          payload.length bleNowMs bridgeTtlMs := by
  unfold bridgeMaxInputBytes at h
  have hlength : (stageHeader owner id layout mode flags payload.length ++ payload).length
      = 14 + payload.length := by
    rw [List.length_append, stageHeader_length]
  unfold bleHandleStage
  rw [hlength, if_neg (by omega)]
  dsimp only
  rw [stageHeader_ulen _ _ _ _ _ _ _ (by omega), if_neg (by omega), stageHeader_owner,
    stageHeader_id, stageHeader_layout, stageHeader_mode, stageHeader_flags, stageHeader_payload]

@[simp] theorem jobPacket_length (cmd : UInt8) (owner id : UInt32) :
    (jobPacket cmd owner id).length = 9 := rfl

theorem jobPacket_cmd (cmd : UInt8) (owner id : UInt32) : byteOf (jobPacket cmd owner id) 0 = cmd :=
  rfl

theorem jobPacket_owner (cmd : UInt8) (owner id : UInt32) :
    u32Of (jobPacket cmd owner id) 1 = owner := u32_leBytes owner

theorem jobPacket_id (cmd : UInt8) (owner id : UInt32) :
    u32Of (jobPacket cmd owner id) 5 = id := u32_leBytes id

theorem bleHandleConfirm_packet (core : BridgeCore) (bleNowMs : UInt32) (cmd : UInt8)
    (owner id : UInt32) :
    bleHandleConfirm core bleNowMs (jobPacket cmd owner id)
      = bridgeCoreConfirm core owner id bleNowMs := by
  unfold bleHandleConfirm
  rw [jobPacket_owner, jobPacket_id]
  rfl

theorem bleHandleCancel_packet (core : BridgeCore) (cmd : UInt8) (owner id : UInt32) :
    bleHandleCancel core (jobPacket cmd owner id) = bridgeCoreCancel core owner id := by
  unfold bleHandleCancel
  rw [jobPacket_owner, jobPacket_id]
  rfl

end PicoBridge
