/-
`firmware/bridge_main.c`, the command side: the handlers, the dispatcher
`ble_handle_authenticated_command` and `command_process_frame`.

# What is modelled how

- `Device` holds the globals the command side shares: the core, the RAM
  roster, the Noise session, the receipt's status byte, and the flash
  sectors of the trust store and of the radio record.
- `FrameEnv` is what one frame meets outside them: the clock, the USB
  mount state, how `flash_safe_execute` fares, the ephemeral key the RNG
  gives, and the readings of the network endpoint (none in a build
  without `BRIDGE_ENABLE_NET`). Nothing the readings come from is written
  here, so a scan that is started is only its result.
- A frame is a list of bytes; its `uint16_t` length is the list's, which
  `command_process_frame` bounds by the transports' buffers.
- ADD and REVOKE first make a candidate roster and then commit it; the
  candidate is a definition of its own (`controllerCandidate`), which also
  says what a power cut inside the commit finds (`commandCut`).
-/
import PicoBridge.Noise.Responder
import PicoBridge.Radio.Config
import PicoBridge.Usb.Drain

namespace PicoBridge

open Lib.NorFlash (Op cutImage)

-- ========================================================== the commands

def bleCmdStage : UInt8 := 1
def bleCmdConfirm : UInt8 := 2
def bleCmdCancel : UInt8 := 3
def bleCmdTick : UInt8 := 4
def bleCmdNoise : UInt8 := 5
def bleCmdEncrypted : UInt8 := 6
def bleCmdControllerAdd : UInt8 := 7
def bleCmdControllerRevoke : UInt8 := 8
def bleCmdSetRadio : UInt8 := 9
def bleCmdClearRadio : UInt8 := 10
def bleCmdNetStatus : UInt8 := 11
def bleCmdNetDebug : UInt8 := 12
def bleCmdNetRaw : UInt8 := 13
def bleCmdNetDhcp : UInt8 := 14
def bleCmdNetProbe : UInt8 := 15
def bleCmdNetIp : UInt8 := 16
def bleCmdNetScanStart : UInt8 := 17
def bleCmdNetScanTotal : UInt8 := 18
def bleCmdNetScanMatch : UInt8 := 19
def bleCmdNetScanRssi : UInt8 := 20

/-- What the `net_endpoint_*` getters return. -/
structure NetReadings where
  state : UInt8
  link : Int8
  raw : UInt16
  dhcp : UInt8
  probe : UInt8
  ipOctet : UInt8 → UInt8
  scanStart : Bool
  scanTotal : UInt8
  scanMatch : UInt8
  scanRssi : Int8

/-- What a frame meets outside the device's globals. -/
structure FrameEnv where
  bleNowMs : UInt32
  tudMounted : Bool
  storeExec : FlashExec
  radioExec : FlashExec
  responderEph : Option (Key × Key)
  net : Option NetReadings

/-- The globals of the command side and the flash behind them. -/
structure Device where
  core : BridgeCore
  controllers : ControllerStore
  noise : NoiseIkCtx
  cmdAckStatus : UInt8
  store : StoreFlash
  radio : Sector

-- ========================================================= reading a frame

/-- `p[i]`. -/
def byteOf (p : List UInt8) (i : Nat) : UInt8 := p.getD i 0

/-- The little-endian `uint32_t` at `p + i`. -/
def u32Of (p : List UInt8) (i : Nat) : UInt32 :=
  UInt32.ofNat (leValue [byteOf p i, byteOf p (i + 1), byteOf p (i + 2), byteOf p (i + 3)])

/-- The little-endian `uint16_t` at `p + i`. -/
def u16Of (p : List UInt8) (i : Nat) : Nat := leValue [byteOf p i, byteOf p (i + 1)]

-- ============================================================ the handlers

/-- `ble_handle_stage`. The length test is made in `uint16_t`. -/
def bleHandleStage (core : BridgeCore) (bleNowMs : UInt32) (p : List UInt8) :
    BridgeStatus × BridgeCore :=
  if p.length < 14 then (.errArgument, core)
  else
    let layout := if byteOf p 9 = 2 then bridgeLayoutDe else bridgeLayoutUs
    let mode := if byteOf p 10 = 2 then bridgeModeText else bridgeModePassword
    let ulen := u16Of p 12
    if p.length < (14 + ulen) % 65536 then (.errArgument, core)
    else
      bridgeCoreStage core (u32Of p 1) (u32Of p 5) layout mode (byteOf p 11)
        (some (p.drop 14)) ulen bleNowMs bridgeTtlMs

/-- `ble_handle_confirm`. -/
def bleHandleConfirm (core : BridgeCore) (bleNowMs : UInt32) (p : List UInt8) :
    BridgeStatus × BridgeCore :=
  if p.length < 9 then (.errArgument, core)
  else bridgeCoreConfirm core (u32Of p 1) (u32Of p 5) bleNowMs

/-- `ble_handle_cancel`. -/
def bleHandleCancel (core : BridgeCore) (p : List UInt8) : BridgeStatus × BridgeCore :=
  if p.length < 9 then (.errArgument, core)
  else bridgeCoreCancel core (u32Of p 1) (u32Of p 5)

/-- `ble_handle_tick`: the clock is the frame's. -/
def bleHandleTick (core : BridgeCore) (p : List UInt8) : BridgeStatus × BridgeCore :=
  if p.length < 5 then (.errArgument, core)
  else bridgeCoreTick core (u32Of p 1)

/-- `ble_handle_controller_add` up to its commit. -/
def addCandidate (d : Device) (p : List UInt8) : Except BridgeStatus ControllerStore :=
  if p.length ≠ 34 ∨ ¬controllerStoreIsAdmin d.controllers d.noise.noiseAuthenticatedSlot then
    .error .errOwner
  else if byteOf p 1 ≠ controllerRoleOperator ∧ byteOf p 1 ≠ controllerRoleAdmin then
    .error .errArgument
  else
    match controllerStoreAdd d.controllers d.noise.noiseAuthenticatedSlot (keyAt p 2)
        (byteOf p 1) with
    | .error e => .error (if e = .full then .errLimit else .errArgument)
    | .ok (candidate, _) => .ok candidate

/-- `ble_handle_controller_revoke` up to its commit. -/
def revokeCandidate (d : Device) (p : List UInt8) : Except BridgeStatus ControllerStore :=
  if p.length ≠ 2 ∨ ¬controllerStoreIsAdmin d.controllers d.noise.noiseAuthenticatedSlot then
    .error .errOwner
  else if (byteOf p 1).toNat = d.noise.noiseAuthenticatedSlot then .error .errPolicy
  else
    match controllerStoreRevoke d.controllers d.noise.noiseAuthenticatedSlot
        (byteOf p 1).toNat with
    | .error e => .error (if e = .immutable then .errPolicy else .errArgument)
    | .ok candidate => .ok candidate

/-- The end of both: the candidate is committed and, once flash holds it,
becomes the RAM roster. -/
def commitCandidate (d : Device) (env : FrameEnv) :
    Except BridgeStatus ControllerStore → BridgeStatus × Device
  | .error st => (st, d)
  | .ok candidate =>
      match controllerStoreFlashCommit d.store candidate env.storeExec with
      | (.ok _, flash) => (.ok, { d with controllers := candidate, store := flash })
      | (.error _, flash) => (.errState, { d with store := flash })

/-- `ble_handle_controller_add`. -/
def bleHandleControllerAdd (d : Device) (env : FrameEnv) (p : List UInt8) :
    BridgeStatus × Device :=
  commitCandidate d env (addCandidate d p)

/-- `ble_handle_controller_revoke`. -/
def bleHandleControllerRevoke (d : Device) (env : FrameEnv) (p : List UInt8) :
    BridgeStatus × Device :=
  commitCandidate d env (revokeCandidate d p)

/-- `ble_handle_set_radio` up to its write: the sector image. -/
def radioImage (d : Device) (env : FrameEnv) (p : List UInt8) : Except BridgeStatus Sector :=
  if p.length < 3 then .error .errArgument
  else if ¬controllerStoreIsAdmin d.controllers d.noise.noiseAuthenticatedSlot then
    .error .errOwner
  else if env.tudMounted then .error .errPolicy
  else
    let ssidLen := (byteOf p 1).toNat
    let pskLen := (byteOf p 2).toNat
    if p.length ≠ 3 + ssidLen + pskLen then .error .errArgument
    else
      match radioConfigBuild2 ((p.drop 3).take ssidLen)
          ((p.drop (3 + ssidLen)).take pskLen) with
      | none => .error .errArgument
      | some image => .ok image

/-- `ble_handle_set_radio`. -/
def bleHandleSetRadio (d : Device) (env : FrameEnv) (p : List UInt8) :
    BridgeStatus × Device :=
  match radioImage d env p with
  | .error st => (st, d)
  | .ok image =>
      let r := radioProvisionFlashWriteAndVerify d.radio image env.radioExec
      (if r.1 then .ok else .errState, { d with radio := r.2 })

/-- `ble_handle_clear_radio`. -/
def bleHandleClearRadio (d : Device) (env : FrameEnv) : BridgeStatus × Device :=
  if ¬controllerStoreIsAdmin d.controllers d.noise.noiseAuthenticatedSlot then (.errOwner, d)
  else if env.tudMounted then (.errPolicy, d)
  else
    let r := radioProvisionFlashClear d.radio env.radioExec
    (if r.1 then .ok else .errState, { d with radio := r.2 })

-- ========================================================== the dispatcher

/-- A handler of the core, run on the device. -/
def Device.onCore (d : Device) (r : BridgeStatus × BridgeCore) : BridgeStatus × Device :=
  (r.1, { d with core := r.2 })

/-- The cases of the switch that answer with a bridge status. -/
def bridgeCommand (d : Device) (env : FrameEnv) (p : List UInt8) :
    Option (BridgeStatus × Device) :=
  let cmd := byteOf p 0
  if cmd = bleCmdStage then some (d.onCore (bleHandleStage d.core env.bleNowMs p))
  else if cmd = bleCmdConfirm then some (d.onCore (bleHandleConfirm d.core env.bleNowMs p))
  else if cmd = bleCmdCancel then some (d.onCore (bleHandleCancel d.core p))
  else if cmd = bleCmdTick then some (d.onCore (bleHandleTick d.core p))
  else if cmd = bleCmdControllerAdd then some (bleHandleControllerAdd d env p)
  else if cmd = bleCmdControllerRevoke then some (bleHandleControllerRevoke d env p)
  else if cmd = bleCmdSetRadio then some (bleHandleSetRadio d env p)
  else if cmd = bleCmdClearRadio then some (bleHandleClearRadio d env)
  else none

/-- The cases behind `BRIDGE_ENABLE_NET`: whether a receipt is due, and
its status byte. -/
def netCommand (net : NetReadings) (p : List UInt8) : Option (Bool × UInt8) :=
  let cmd := byteOf p 0
  if cmd = bleCmdNetStatus then some (true, net.state)
  else if cmd = bleCmdNetDebug then some (true, (40 + net.link).toUInt8)
  else if cmd = bleCmdNetRaw then some (true, (net.raw >>> 8).toUInt8)
  else if cmd = bleCmdNetDhcp then some (true, net.dhcp)
  else if cmd = bleCmdNetIp then
    if p.length ≠ 2 then some (false, BridgeStatus.errArgument.toByte)
    else some (true, net.ipOctet (byteOf p 1))
  else if cmd = bleCmdNetScanStart then some (true, if net.scanStart then 0 else 1)
  else if cmd = bleCmdNetScanTotal then some (true, net.scanTotal)
  else if cmd = bleCmdNetScanMatch then some (true, net.scanMatch)
  else if cmd = bleCmdNetScanRssi then some (true, net.scanRssi.toUInt8)
  else if cmd = bleCmdNetProbe then some (true, net.probe)
  else none

/-- `ble_handle_authenticated_command`: whether a receipt is due, and the
device with the receipt's status set. -/
def bleHandleAuthenticatedCommand (d : Device) (env : FrameEnv) (data : List UInt8) :
    Bool × Device :=
  if data.length = 0 then (false, { d with cmdAckStatus := BridgeStatus.errArgument.toByte })
  else
    match bridgeCommand d env data with
    | some (status, d) => (true, { d with cmdAckStatus := status.toByte })
    | none =>
        match env.net.bind fun net => netCommand net data with
        | some (receipt, status) => (receipt, { d with cmdAckStatus := status })
        | none => (false, { d with cmdAckStatus := BridgeStatus.errArgument.toByte })

-- =============================================================== the frames

/-- `BRIDGE_TRANSPORT_RESPONSE_MAX`. -/
def bridgeTransportResponseMax : Nat := 1 + noiseIkResponseLen

variable (lib : Crypto)

/-- The CMD_NOISE case of `command_process_frame`. -/
def processNoise (d : Device) (env : FrameEnv) (data : List UInt8) (respCap : Nat) :
    Option (List UInt8) × Device :=
  if data.length ≠ 1 + noiseIkInitMessageLen then (none, d)
  else
    let r := noiseIkHandshakeRespond lib d.controllers env.responderEph (data.drop 1)
      (respCap - 1) d.noise
    match r.1 with
    | none => (none, { d with noise := r.2 })
    | some response =>
        if response.length ≠ noiseIkResponseLen then (none, { d with noise := r.2 })
        else (some (bleCmdNoise :: response), { d with noise := r.2 })

/-- The receipt of a command, where one is due. -/
def sendReceipt (d : Device) (respCap : Nat) (due : Bool) : Option (List UInt8) × Device :=
  if ¬due then (none, d)
  else
    match noiseEncryptTransportAck lib d.cmdAckStatus (respCap - 1) d.noise with
    | .error _ noise => (none, { d with noise := noise })
    | .ok receipt noise => (some (bleCmdEncrypted :: receipt), { d with noise := noise })

/-- The CMD_ENCRYPTED case of `command_process_frame`. -/
def processEncrypted (d : Device) (env : FrameEnv) (data : List UInt8) (respCap : Nat) :
    Option (List UInt8) × Device :=
  if data.length ≤ 1 then (none, d)
  else
    match noiseDecryptPacket lib (data.drop 1) noiseIkMaxPlaintext d.noise with
    | .error _ noise => (none, { d with noise := noise })
    | .ok plaintext noise =>
        let r := bleHandleAuthenticatedCommand { d with noise := noise } env plaintext
        sendReceipt lib r.2 respCap r.1

/-- `command_process_frame`: the response, if there is one, and the
device after it. -/
def commandProcessFrame (d : Device) (env : FrameEnv) (data : List UInt8) (respCap : Nat) :
    Option (List UInt8) × Device :=
  if data.length = 0 then (none, d)
  else if byteOf data 0 = bleCmdNoise then processNoise lib d env data respCap
  else if byteOf data 0 = bleCmdEncrypted then processEncrypted lib d env data respCap
  else (none, d)

-- ========================================================= the power cuts

/-- The roster whose commit a plaintext frame reaches. -/
def controllerCandidate (d : Device) (data : List UInt8) : Option ControllerStore :=
  if byteOf data 0 = bleCmdControllerAdd then (addCandidate d data).toOption
  else if byteOf data 0 = bleCmdControllerRevoke then (revokeCandidate d data).toOption
  else none

/-- The flash operations a plaintext frame does to the radio sector. -/
def radioOps (d : Device) (env : FrameEnv) (data : List UInt8) : List (Op (Fin 4096)) :=
  if byteOf data 0 = bleCmdSetRadio then
    match radioImage d env data with
    | .error _ => []
    | .ok image =>
        if (radioConfigParse2 (some image) radioSectorSize).isSome then radioProgramOps image
        else []
  else if byteOf data 0 = bleCmdClearRadio ∧
      controllerStoreIsAdmin d.controllers d.noise.noiseAuthenticatedSlot ∧ ¬env.tudMounted then
    [.erase]
  else []

/-- The flash that power lost while a plaintext frame was handled leaves.
A cut in a command that does not program flash falls outside every flash
operation. -/
def commandCut (d : Device) (env : FrameEnv) (data : List UInt8) (cut : PowerCut) :
    StoreFlash × Sector :=
  (match controllerCandidate d data with
    | some candidate => commitCut d.store candidate cut
    | none => d.store,
   cutImage (radioOps d env data) cut.done cut.torn d.radio)

/-- The plaintext a frame carries, where it is decrypted. -/
def framePlaintext (noise : NoiseIkCtx) (data : List UInt8) : Option (List UInt8) :=
  if byteOf data 0 = bleCmdEncrypted ∧ data.length > 1 then
    match noiseDecryptPacket lib (data.drop 1) noiseIkMaxPlaintext noise with
    | .ok plaintext _ => some plaintext
    | .error _ _ => none
  else none

/-- The same of a frame that arrived. -/
def frameCut (d : Device) (env : FrameEnv) (data : List UInt8) (cut : PowerCut) :
    StoreFlash × Sector :=
  match framePlaintext lib d.noise data with
  | some plaintext => commandCut d env plaintext cut
  | none => (d.store, d.radio)

end PicoBridge
