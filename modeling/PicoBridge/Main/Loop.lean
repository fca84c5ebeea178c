/-
`firmware/bridge_main.c`, `main` as a whole: the keyboard side and the
two transports in one loop, on one core.

# The system

The modules below this one cut the loop in two: Usb/Drain.lean takes the
poll of the transports as any list of core calls, and
Link/Transports.lean has a device whose core no keyboard side drains.
Here both run: a pass polls `tud_task`, drains, ticks, and then polls the
transports at the clock of the pass, on the core that the drain left.

# What is modelled how

- `Firmware` carries that the two sides have the same core, so neither
  can run on a copy of its own.
- A poll of the transports is what arrived on them, in order, and then
  `net_endpoint_poll`, which a build without the endpoint leaves out.
- `key` and `spent` are the witnesses of Device/Authority.lean and
  Device/Outsider.lean. An event of the core that a command caused is
  seen with the command.
- The LED, the watchdog and the re-arming of the advertisement touch none
  of this.
-/
import PicoBridge.Usb.Origin
import PicoBridge.Link.Radio
import PicoBridge.Link.Transports

namespace PicoBridge

open Lib (Machine)

-- ====================================================== the clock of a pass

/-- What a frame meets in a pass: `ble_now_ms` is the pass's. -/
def FrameEnv.atClock (nowMs : UInt32) (env : FrameEnv) : FrameEnv :=
  { env with bleNowMs := nowMs }

def RxByte.atClock (nowMs : UInt32) (x : RxByte) : RxByte :=
  { x with env := x.env.atClock nowMs }

def NetInput.atClock (nowMs : UInt32) : NetInput → NetInput
  | .recv pcb p errOk => .recv pcb (p.map (·.map (·.map (RxByte.atClock nowMs)))) errOk
  | .poll env => .poll { env with nowMs := nowMs }
  | i => i

theorem NetInput.atClock_arrives (nowMs : UInt32) (i : NetInput) :
    (i.atClock nowMs).arrives = i.arrives := by
  cases i <;> rfl

def Arrival.atClock (nowMs : UInt32) : Arrival → Arrival
  | .ble w => .ble { w with env := w.env.atClock nowMs }
  | .net i arrives => .net (i.atClock nowMs) ((i.atClock_arrives nowMs).trans arrives)

-- ================================================================ the state

/-- The state of `main`'s loop, beside its two witnesses. -/
structure Firmware where
  usb : UsbMain
  transports : Transports
  shared : transports.device.core = usb.core
  key : Option Key
  spent : List Spent

def Firmware.device (m : Firmware) : Device := m.transports.device

/-- The transports on a core that the keyboard side has left. -/
def Transports.withCore (t : Transports) (core : BridgeCore) : Transports where
  ble := { t.ble with device := { t.ble.device with core := core } }
  net := { t.net with device := { t.net.device with core := core } }
  shared := by rw [t.shared]

/-- The transports of a device that has just started. -/
def transportsInit (d : Device) : Transports where
  ble := ⟨d, [], false, none, 0⟩
  net := netEndpointStart (radioProvisionFlashRead d.radio).isSome (netEndpointInit d)
  shared := by
    unfold netEndpointStart
    split <;> rfl

/-- `main` at the head of its loop, on the device that it has set up. -/
def firmwareInit (d : Device) : Firmware where
  usb := { usbMainInit with core := d.core }
  transports := transportsInit d
  shared := rfl
  key := none
  spent := []

/-- An answer of the environment to the keyboard side, or a poll of the
transports: what has arrived, and what `net_endpoint_poll` reads. -/
inductive MainInput
  | usb (i : UsbInput) (own : ∀ calls, i ≠ .asyncPoll calls)
  | asyncPoll (arrivals : List Arrival) (netPoll : Option WifiEnv)

-- =============================================================== the events

/-- A command that was dispatched: the device and the key of the session
that it came to, the frame, and what the frame opened to. -/
structure Command where
  before : Device
  key : Option Key
  call : Call
  plaintext : List UInt8

/-- What is seen of the loop: an event of the keyboard side, and the
command behind it if there is one. -/
structure MainEvent where
  event : UsbEvent
  command : Option Command

variable (lib : Crypto)

/-- The events of a call: what its command says of the core. -/
def callEvents (d : Device) (key : Option Key) (c : Call) : List MainEvent :=
  match framePlaintext lib d.noise c.data with
  | none => []
  | some p =>
      match commandCall p with
      | none => []
      | some call =>
          let r := coreOp d.core (call.coreCall c.env.bleNowMs)
          (coreLabels (call.coreCall c.env.bleNowMs) r.1 r.2).map
            fun l => ⟨.core l, some ⟨d, key, c, p⟩⟩

/-- The device with the key of its session, call by call. -/
def commandMachine : Machine (Device × Option Key) Call MainEvent where
  step s c :=
    (((commandProcessFrame lib s.1 c.env c.data bridgeTransportResponseMax).2,
      if IsHandshake c.data then authenticates lib s.1 c.env c.data else s.2),
     callEvents lib s.1 s.2 c)

-- ================================================================= the loop

/-- What the transports meet in a poll. `net_endpoint_poll` comes last and
reads the radio record that is in flash then. -/
def Firmware.met (m : Firmware) (arrivals : List Arrival) (netPoll : Option WifiEnv) :
    List Arrival :=
  let arrived := arrivals.map (Arrival.atClock m.usb.bleNowMs)
  let radio := ((transportMachine lib).final m.transports arrived).device.radio
  arrived ++ (netPoll.map fun env =>
    .net (.poll ({ env with nowMs := m.usb.usbNowMs }.reading radio)) rfl).toList

/-- The calls of `command_process_frame` in a poll. -/
def Firmware.calls (m : Firmware) (arrivals : List Arrival) (netPoll : Option WifiEnv) :
    List Call :=
  (transportMachine lib).trace m.transports (m.met lib arrivals netPoll)

/-- A poll of the transports. -/
def transportsPoll (m : Firmware) (arrivals : List Arrival) (netPoll : Option WifiEnv) :
    Firmware × List MainEvent :=
  let t := (transportMachine lib).final m.transports (m.met lib arrivals netPoll)
  let calls := m.calls lib arrivals netPoll
  let s := (m.device, m.key)
  ({  usb := { m.usb with core := t.device.core, pc := .top }
      transports := t
      shared := rfl
      key := ((commandMachine lib).final s calls).2
      spent := ((callMachine lib).final (m.device, m.spent) calls).2 },
    (commandMachine lib).trace s calls)

/-- A step of the keyboard side. -/
def keyboardStep (m : Firmware) (i : UsbInput) : Firmware × List MainEvent :=
  let r := usbStep m.usb i
  ({ m with usb := r.1, transports := m.transports.withCore r.1.core, shared := rfl },
    r.2.map (⟨·, none⟩))

/-- From one question to the environment to the next. -/
def mainStep (m : Firmware) : MainInput → Firmware × List MainEvent
  | .usb i _ => keyboardStep m i
  | .asyncPoll arrivals netPoll =>
      if m.usb.pc = .poll then transportsPoll lib m arrivals netPoll else (m, [])

/-- `main`'s loop as a machine. -/
def mainMachine : Machine Firmware MainInput MainEvent := ⟨mainStep lib⟩

/-- A step is one of the keyboard side, a poll of the transports, or an
answer that nothing asked for. -/
theorem mainStep_cases (m : Firmware) (i : MainInput) :
    (∃ j, (∀ calls, j ≠ .asyncPoll calls) ∧ mainStep lib m i = keyboardStep m j) ∨
      (∃ arrivals netPoll, m.usb.pc = .poll ∧ i = .asyncPoll arrivals netPoll ∧
        mainStep lib m i = transportsPoll lib m arrivals netPoll) ∨
      (m.usb.pc ≠ .poll ∧ (∃ arrivals netPoll, i = .asyncPoll arrivals netPoll) ∧
        mainStep lib m i = (m, [])) := by
  cases i with
  | usb j own => exact .inl ⟨j, own, rfl⟩
  | asyncPoll arrivals netPoll =>
      by_cases hpc : m.usb.pc = .poll
      · exact .inr (.inl ⟨arrivals, netPoll, hpc, rfl, if_pos hpc⟩)
      · exact .inr (.inr ⟨hpc, ⟨arrivals, netPoll, rfl⟩, if_neg hpc⟩)

end PicoBridge
