/-
`firmware/bridge_main.c`, the main loop and `usb_hid_drain`: the keyboard
side of the device as a machine that advances from one question to the
environment to the next.

# The program counter

The drain busy-waits, so one call of it is not one atomic step: between
its press and its release report `tud_task` runs callbacks that may
abort the core. `Pc` names the places where the loop asks the
environment something (`tud_task` and the clock, `tud_hid_ready`,
`tud_hid_keyboard_report`, the transports' poll) and `usbStep` runs the
code from one such place to the next. An input that does not answer the
pending question changes nothing.

# What is modelled how

- Clocks are `UInt32`, so `usb_now_ms + 100` wraps as in the code.
- `hid_leds`, `hid_idle_dirty`, the LED, the watchdog and the
  advertising state are read by nothing here and left out; of the TinyUSB
  callbacks only unmount and suspend touch the core.
- The transports reach the core through the four handlers of
  Device/Dispatch.lean; here a poll is any list of the core calls those
  handlers make (`TransportCall`), at `ble_now_ms` and with
  `BRIDGE_TTL_MS`, a tick with whatever clock its frame carries.
-/
import PicoBridge.Core.Job

namespace PicoBridge

open Lib (Machine)

-- =========================================================== the reports

/-- A boot keyboard report: the modifier byte and `keycode[6]`. -/
structure HidReport where
  modifier : UInt8
  keycode : List UInt8
  deriving DecidableEq, Repr

/-- The report that presses a stroke: `keys[6]` with the usage first. -/
def BridgeStroke.press (stroke : BridgeStroke) : HidReport :=
  ⟨stroke.modifier, [stroke.usage, 0, 0, 0, 0, 0]⟩

/-- The all-zero report: every key released. -/
def released : HidReport := ⟨0, [0, 0, 0, 0, 0, 0]⟩

/-- What an observer of the keyboard side sees: what the core was made
to do, the end of a job's typing, a stall abort, and every report handed
to the endpoint with the endpoint's answer. -/
inductive UsbEvent
  | core (label : CoreLabel)
  | completed
  | stallAbort
  | report (report : HidReport) (accepted : Bool)
  deriving DecidableEq

-- ======================================================= the environment

/-- The TinyUSB device callbacks `tud_task` may fire. -/
inductive UsbCallback
  | mount
  | umount
  | suspend
  | resume
  | setReport
  | setProtocol
  | setIdle
  deriving DecidableEq

/-- What a callback does to the core: `tud_umount_cb` and
`tud_suspend_cb` abort it. -/
def UsbCallback.coreCalls : UsbCallback → List CoreCall
  | .umount => [.abort]
  | .suspend => [.abort]
  | _ => []

def bridgeTtlMs : UInt32 := bridgeMaxTtlMs

/-- A core call made by a command handler during the transports' poll. -/
inductive TransportCall
  | stage (owner id layout mode : UInt32) (flags : UInt8) (utf8 : List UInt8)
      (length : Nat)
  | confirm (owner id : UInt32)
  | cancel (owner id : UInt32)
  | tick (nowMs : UInt32)
  deriving DecidableEq

/-- The call with the arguments the handlers add. -/
def TransportCall.coreCall (bleNowMs : UInt32) : TransportCall → CoreCall
  | .stage owner id layout mode flags utf8 length =>
      .stage owner id layout mode flags (some utf8) length bleNowMs bridgeTtlMs
  | .confirm owner id => .confirm owner id bleNowMs
  | .cancel owner id => .cancel owner id
  | .tick nowMs => .tick nowMs

/-- An answer of the environment: one `tud_task` with the callbacks it
fired and the clock read after it, an endpoint poll, the endpoint's
answer to a report, or a poll of the transports. -/
inductive UsbInput
  | tudTask (callbacks : List UsbCallback) (nowMs : UInt32)
  | ready (ready : Bool)
  | report (accepted : Bool)
  | asyncPoll (calls : List TransportCall)
  deriving DecidableEq

-- ============================================================= the state

/-- Where the loop is waiting for the environment. -/
inductive Pc
  /-- `tud_task` at the head of the main loop. -/
  | top
  /-- `while (tud_hid_ready())` of the drain. -/
  | loop
  /-- The press report of a stroke. -/
  | press (stroke : BridgeStroke)
  /-- The readiness test of the wait loop. -/
  | wait (deadline : UInt32)
  /-- `tud_task` inside the wait loop. -/
  | task (deadline : UInt32)
  /-- `if (!tud_hid_ready()) break` after the wait loop. -/
  | recheck
  /-- The all-zero report. -/
  | release
  /-- The transports' poll. -/
  | poll
  deriving DecidableEq

/-- The globals the keyboard side reads and writes, the two static
timestamps and the program counter. -/
structure UsbMain where
  core : BridgeCore
  usbNowMs : UInt32
  bleNowMs : UInt32
  execSinceMs : UInt32
  lastUsbDrainMs : UInt32
  pc : Pc

/-- The state `main` enters its loop with. -/
def usbMainInit : UsbMain where
  core := bridgeCoreInit
  usbNowMs := 0
  bleNowMs := 0
  execSinceMs := 0
  lastUsbDrainMs := 0
  pc := .top

-- ============================================================== the code

/-- A sequence of core calls, reported as labels. -/
def UsbMain.callCore (m : UsbMain) (calls : List CoreCall) : UsbMain × List UsbEvent :=
  let calls := calls.map (false, ·)
  ({ m with core := coreMachine.final m.core calls },
    (coreMachine.trace m.core calls).map .core)

/-- `tud_task` with its callbacks. -/
def tudTask (m : UsbMain) (callbacks : List UsbCallback) : UsbMain × List UsbEvent :=
  m.callCore (callbacks.flatMap UsbCallback.coreCalls)

/-- The main loop after the drain: the expiry tick, then on to the poll. -/
def tickAndPoll (m : UsbMain) : UsbMain × List UsbEvent :=
  let r := m.callCore [.tick m.usbNowMs]
  ({ r.1 with pc := .poll }, r.2)

/-- The return of `usb_hid_drain` into the main loop. -/
def drainReturn (m : UsbMain) : UsbMain × List UsbEvent :=
  tickAndPoll { m with lastUsbDrainMs := m.usbNowMs }

/-- The test of the stall guard. -/
def UsbMain.stalled (m : UsbMain) : Prop :=
  m.core.state = .executing ∧ m.execSinceMs ≠ 0 ∧ m.usbNowMs - m.execSinceMs > 2000

instance (m : UsbMain) : Decidable m.stalled :=
  inferInstanceAs (Decidable (_ ∧ _ ∧ _))

/-- The head of `usb_hid_drain`: the stall guard. -/
def drainEnter (m : UsbMain) : UsbMain × List UsbEvent :=
  if m.stalled then
    let r := m.callCore [.abort]
    let q := drainReturn { r.1 with execSinceMs := 0 }
    (q.1, r.2 ++ .stallAbort :: q.2)
  else
    ({ m with
        execSinceMs :=
          if m.core.state = .executing then
            if m.execSinceMs = 0 then m.usbNowMs else m.execSinceMs
          else 0
        pc := .loop }, [])

/-- The body of the drain's loop up to its press report. -/
def drainNext (m : UsbMain) : UsbMain × List UsbEvent :=
  let r := bridgeCoreNext m.core m.usbNowMs
  let labels := coreLabels (.next m.usbNowMs false) ⟨some r.1, r.2.1⟩ r.2.2
  let events := (if r.1 = .done then [.completed] else []) ++ labels.map .core
  if r.1 ≠ .ok then
    let q := drainReturn { m with core := r.2.2 }
    (q.1, events ++ q.2)
  else
    ({ m with
        core := r.2.2
        pc := if r.2.1.usage ≠ 0 then .press r.2.1 else .loop }, events)

/-- The head of the main loop once `tud_task` has run: both clocks are
set, and every 5 ms the drain is called. -/
def mainLoop (m : UsbMain) (nowMs : UInt32) : UsbMain × List UsbEvent :=
  let m := { m with usbNowMs := nowMs, bleNowMs := nowMs }
  if m.usbNowMs - m.lastUsbDrainMs ≥ 5 then drainEnter m else tickAndPoll m

/-- From one question to the environment to the next. -/
def usbStep (m : UsbMain) (i : UsbInput) : UsbMain × List UsbEvent :=
  match m.pc, i with
  | .top, .tudTask callbacks nowMs =>
      let r := tudTask m callbacks
      let q := mainLoop r.1 nowMs
      (q.1, r.2 ++ q.2)
  | .loop, .ready ready => if ready then drainNext m else drainReturn m
  | .press stroke, .report accepted =>
      if accepted then
        ({ m with pc := .wait (m.usbNowMs + 100) }, [.report stroke.press true])
      else
        let q := drainReturn m
        (q.1, .report stroke.press false :: q.2)
  | .wait deadline, .ready ready =>
      ({ m with pc := if ¬ready ∧ m.usbNowMs < deadline then .task deadline else .recheck },
        [])
  | .task deadline, .tudTask callbacks nowMs =>
      let r := tudTask m callbacks
      ({ r.1 with usbNowMs := nowMs, pc := .wait deadline }, r.2)
  | .recheck, .ready ready =>
      if ready then ({ m with pc := .release }, []) else drainReturn m
  | .release, .report accepted =>
      if accepted then ({ m with pc := .loop }, [.report released true])
      else
        let q := drainReturn m
        (q.1, .report released false :: q.2)
  | .poll, .asyncPoll calls =>
      let r := m.callCore (calls.map (TransportCall.coreCall m.bleNowMs))
      ({ r.1 with pc := .top }, r.2)
  | _, _ => (m, [])

/-- The keyboard side as a machine. -/
def usbMachine : Machine UsbMain UsbInput UsbEvent where
  step := usbStep

-- ===================================================== what a step can do

/-- The outcomes of `usbStep`, one constructor per transition of the
program counter. -/
inductive UsbOutcome (m : UsbMain) : UsbInput → UsbMain × List UsbEvent → Prop
  | skip {i : UsbInput} : UsbOutcome m i (m, [])
  | top {cbs : List UsbCallback} {nowMs : UInt32} (hpc : m.pc = .top) :
      UsbOutcome m (.tudTask cbs nowMs)
        ((mainLoop (tudTask m cbs).1 nowMs).1,
          (tudTask m cbs).2 ++ (mainLoop (tudTask m cbs).1 nowMs).2)
  | next (hpc : m.pc = .loop) : UsbOutcome m (.ready true) (drainNext m)
  | busy (hpc : m.pc = .loop) : UsbOutcome m (.ready false) (drainReturn m)
  | pressed {stroke : BridgeStroke} (hpc : m.pc = .press stroke) :
      UsbOutcome m (.report true)
        ({ m with pc := .wait (m.usbNowMs + 100) }, [.report stroke.press true])
  | refused {stroke : BridgeStroke} (hpc : m.pc = .press stroke) :
      UsbOutcome m (.report false)
        ((drainReturn m).1, .report stroke.press false :: (drainReturn m).2)
  | waited {deadline : UInt32} {ready : Bool} (hpc : m.pc = .wait deadline) :
      UsbOutcome m (.ready ready)
        ({ m with
            pc := if ¬ready ∧ m.usbNowMs < deadline then .task deadline else .recheck }, [])
  | task {deadline : UInt32} {cbs : List UsbCallback} {nowMs : UInt32}
      (hpc : m.pc = .task deadline) :
      UsbOutcome m (.tudTask cbs nowMs)
        ({ (tudTask m cbs).1 with usbNowMs := nowMs, pc := .wait deadline },
          (tudTask m cbs).2)
  | free (hpc : m.pc = .recheck) : UsbOutcome m (.ready true) ({ m with pc := .release }, [])
  | gaveUp (hpc : m.pc = .recheck) : UsbOutcome m (.ready false) (drainReturn m)
  | released (hpc : m.pc = .release) :
      UsbOutcome m (.report true) ({ m with pc := .loop }, [.report released true])
  | unreleased (hpc : m.pc = .release) :
      UsbOutcome m (.report false)
        ((drainReturn m).1, .report PicoBridge.released false :: (drainReturn m).2)
  | polled {calls : List TransportCall} (hpc : m.pc = .poll) :
      UsbOutcome m (.asyncPoll calls)
        ({ (m.callCore (calls.map (TransportCall.coreCall m.bleNowMs))).1 with pc := .top },
          (m.callCore (calls.map (TransportCall.coreCall m.bleNowMs))).2)

/-- The inversion lemma of the keyboard side. -/
theorem usbStep_cases (m : UsbMain) (i : UsbInput) : UsbOutcome m i (usbStep m i) := by
  unfold usbStep
  split
  next hpc => exact .top hpc
  next ready hpc =>
    cases ready with
    | true => exact .next hpc
    | false => exact .busy hpc
  next accepted hpc =>
    cases accepted with
    | true => exact .pressed hpc
    | false => exact .refused hpc
  next hpc => exact .waited hpc
  next hpc => exact .task hpc
  next ready hpc =>
    cases ready with
    | true => exact .free hpc
    | false => exact .gaveUp hpc
  next accepted hpc =>
    cases accepted with
    | true => exact .released hpc
    | false => exact .unreleased hpc
  next hpc => exact .polled hpc
  next => exact .skip

/-- The head of the main loop aborts a stalled job, enters the drain's
loop, or goes straight to the poll. -/
theorem mainLoop_cases (m : UsbMain) (nowMs : UInt32) :
    let m' : UsbMain := { m with usbNowMs := nowMs, bleNowMs := nowMs }
    (m'.stalled ∧ mainLoop m nowMs
        = ((drainReturn { (m'.callCore [.abort]).1 with execSinceMs := 0 }).1,
            (m'.callCore [.abort]).2 ++ .stallAbort ::
              (drainReturn { (m'.callCore [.abort]).1 with execSinceMs := 0 }).2))
      ∨ (¬m'.stalled ∧ mainLoop m nowMs
        = ({ m' with
              execSinceMs :=
                if m'.core.state = .executing then
                  if m'.execSinceMs = 0 then m'.usbNowMs else m'.execSinceMs
                else 0
              pc := .loop }, []))
      ∨ mainLoop m nowMs = tickAndPoll m' := by
  intro m'
  by_cases hgate : m'.usbNowMs - m'.lastUsbDrainMs ≥ 5
  · have hml : mainLoop m nowMs = drainEnter m' := if_pos hgate
    rw [hml]
    by_cases hst : m'.stalled
    · exact .inl ⟨hst, if_pos hst⟩
    · exact .inr (.inl ⟨hst, if_neg hst⟩)
  · exact .inr (.inr (if_neg hgate))

/-- The return from the drain after the core was terminated. -/
def UsbMain.drop (m : UsbMain) (st : BridgeState) : UsbMain :=
  { m with core := terminate m.core st }

/-- The body of the drain's loop leaves the drain with the core expired,
as it was or completed, or has taken a stroke of an executing job. -/
theorem drainNext_cases (m : UsbMain) :
    (m.core.state = .staged ∧ drainNext m
        = ((drainReturn (m.drop .expired)).1,
            .core .drop :: (drainReturn (m.drop .expired)).2))
      ∨ (m.core.state ≠ .executing ∧ drainNext m = drainReturn m)
      ∨ (m.core.state = .executing ∧ m.core.cursor = m.core.strokeCount ∧ drainNext m
        = ((drainReturn (m.drop .completed)).1,
            .completed :: .core .drop :: (drainReturn (m.drop .completed)).2))
      ∨ (m.core.state = .executing ∧ m.core.cursor ≠ m.core.strokeCount ∧ drainNext m
        = ({ m with
              core := m.core.advance
              pc := if (m.core.strokes m.core.cursor).usage ≠ 0
                then .press (m.core.strokes m.core.cursor) else .loop },
            [.core (.take (m.core.strokes m.core.cursor))])) := by
  rcases bridgeCoreNext_cases m.core m.usbNowMs with
    ⟨hs, -, h⟩ | ⟨hx, -, h⟩ | ⟨hx, hc, h⟩ | ⟨hx, hc, h⟩
  · refine .inl ⟨hs, ?_⟩
    simp only [drainNext, h]
    rfl
  · refine .inr (.inl ⟨hx, ?_⟩)
    simp only [drainNext, h]
    rfl
  · refine .inr (.inr (.inl ⟨hx, hc, ?_⟩))
    simp only [drainNext, h]
    rfl
  · refine .inr (.inr (.inr ⟨hx, hc, ?_⟩))
    simp only [drainNext, h]
    rfl

end PicoBridge
