/-
`firmware/bridge_main.c`, the BLE command characteristic: the receiver of
fragments `cmd_write_callback`, with `ble_handle_command` behind it, and
the host's `fragment_packet` of `tools/pico_bridge_ctl.py`.

# What is modelled how

- `ble_cmd_buf` is the list `ble_cmd_buf[0 .. ble_cmd_pos)`; the value a
  read of the characteristic returns is `none` where
  `cmd_char_read_valid` is false.
- `lastSeq` is the number of the write before. No function of the source
  keeps it; conditions on runs read it.
- A header that does not fit a byte makes `bytearray.append` raise, so
  `fragmentPacket` then has no result.
-/
import PicoBridge.Device.Dispatch

namespace PicoBridge

open Lib (Machine)

-- ============================================================== the receiver

/-- `BLE_CMD_BUF_MAX`. -/
def bleCmdBufMax : Nat := noiseIkMaxPlaintext + 64

def bleFragMore : UInt8 := 1

/-- The device and the statics of the command characteristic. -/
structure BleLink where
  device : Device
  bleCmdBuf : List UInt8
  bleCmdActive : Bool
  cmdCharRead : Option (List UInt8)
  lastSeq : UInt8

/-- What an observer of the characteristic sees: the writes, and the
commands handed to `ble_handle_command`. -/
inductive BleEvent
  | written (buffer : List UInt8)
  | handled (data : List UInt8)
  deriving DecidableEq, Repr

/-- A write to the characteristic, with what a frame meets that it
completes. -/
structure BleWrite where
  env : FrameEnv
  buffer : List UInt8

variable (lib : Crypto)

/-- `ble_handle_command`. The response of a handshake is read without its
type byte. -/
def bleHandleCommand (env : FrameEnv) (data : List UInt8) (l : BleLink) : BleLink :=
  let r := commandProcessFrame lib l.device env data bridgeTransportResponseMax
  let l := { l with device := r.2, cmdCharRead := none }
  match r.1 with
  | none => l
  | some resp =>
      let value := if byteOf resp 0 = bleCmdNoise then resp.drop 1 else resp
      if value.length > bleCmdBufMax then l else { l with cmdCharRead := some value }

/-- The `err` label of `cmd_write_callback`. -/
def bleReset (l : BleLink) : BleLink := { l with bleCmdActive := false, bleCmdBuf := [] }

/-- `cmd_write_callback`, which returns 0 on every path: the command it
hands over, if there is one. -/
def cmdWriteCallback (env : FrameEnv) (buffer : List UInt8) (l : BleLink) :
    BleLink × Option (List UInt8) :=
  match buffer with
  | [] => (l, none)
  | fragHdr :: data =>
      let more := fragHdr &&& bleFragMore ≠ 0
      let seq := fragHdr >>> 1
      let l := { l with lastSeq := seq }
      if seq = 0 ∧ data.length < 1 then (bleReset l, none)
      else if seq ≠ 0 ∧ ¬l.bleCmdActive then (l, none)
      else
        let pos := if seq = 0 then [] else l.bleCmdBuf
        if pos.length + data.length > bleCmdBufMax then (bleReset l, none)
        else if more then ({ l with bleCmdActive := true, bleCmdBuf := pos ++ data }, none)
        else (bleReset (bleHandleCommand lib env (pos ++ data) l), some (pos ++ data))

/-- A write, as it is observed. -/
def bleStep (l : BleLink) (w : BleWrite) : BleLink × List BleEvent :=
  let r := cmdWriteCallback lib w.env w.buffer l
  (r.1, .written w.buffer :: (r.2.map .handled).toList)

/-- The characteristic as an input/output machine. -/
def bleMachine : Machine BleLink BleWrite BleEvent := ⟨bleStep lib⟩

-- ================================================================ the sender

def bleMtuPayload : Nat := 19

/-- The loop of `fragment_packet`, from a number and an offset on. -/
def fragmentFrom (seq : Nat) (packet : List UInt8) : Option (List (List UInt8)) :=
  if _h : packet.length = 0 then some []
  else
    let fragLen := min bleMtuPayload packet.length
    let hdr := 2 * seq + if fragLen < packet.length then 1 else 0
    if hdr > 255 then none
    else
      (fragmentFrom (seq + 1) (packet.drop fragLen)).map
        ((UInt8.ofNat hdr :: packet.take fragLen) :: ·)
termination_by packet.length
decreasing_by
  rw [List.length_drop]
  unfold bleMtuPayload
  omega

/-- `fragment_packet`. -/
def fragmentPacket (packet : List UInt8) : Option (List (List UInt8)) := fragmentFrom 0 packet

end PicoBridge
