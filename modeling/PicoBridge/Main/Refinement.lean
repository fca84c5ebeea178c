/-
What the loop is, seen from each of its sides.

# The two projections

Seen from the keyboard side, a poll of the transports is a list of core
calls at the clock of the pass: those of the commands that its frames open
to, each in the session the frames before it left (`Firmware.usbInputs`).
Seen from the transports, what the keyboard side does is core calls of the
device's own (`Firmware.happenings`). With these inputs the loop is a run
of Usb/Drain.lean and a life of a device that is on, on one core
(`main_refines`). What is proved of either holds of the loop.

# The argument

A command makes at most one core call, `commandCall` of its plaintext, so
a call of `command_process_frame` is at most one core call as well
(`call_core`); the calls of a poll are made one after the other.
-/
import PicoBridge.Main.Loop

namespace PicoBridge

open Lib (Machine Trace)

variable {lib : Crypto}

-- =============================================================== the clock

/-- An arrival that a frame meets at a clock value. -/
def Arrival.OnClock (nowMs : UInt32) : Arrival → Prop
  | .ble w => w.env.bleNowMs = nowMs
  | .net (.recv _ (some chain) _) _ => ∀ segment ∈ chain, ∀ x ∈ segment, x.env.bleNowMs = nowMs
  | _ => True

theorem atClock_onClock (nowMs : UInt32) (a : Arrival) : (a.atClock nowMs).OnClock nowMs := by
  cases a with
  | ble w => rfl
  | net i harrives =>
      cases i with
      | recv pcb p errOk =>
          cases p with
          | none => trivial
          | some chain =>
              intro segment hsegment x hx
              obtain ⟨segment', -, rfl⟩ := List.mem_map.mp hsegment
              obtain ⟨x', -, rfl⟩ := List.mem_map.mp hx
              rfl
      | _ => trivial

theorem netSegmentCalls_env {pcb : Pcb} {xs : List RxByte} : ∀ {n : NetEndpoint} {c : Call},
    c ∈ netSegmentCalls lib pcb xs n → ∃ x ∈ xs, c.env = x.env := by
  induction xs with
  | nil => exact fun hc => absurd hc List.not_mem_nil
  | cons x xs ih =>
      intro n c hc
      unfold netSegmentCalls at hc
      dsimp only at hc
      rcases List.mem_append.mp hc with hnow | hlater
      · unfold netByteCalls at hnow
        dsimp only at hnow
        split at hnow
        · rw [List.mem_singleton.mp hnow]
          exact ⟨x, List.mem_cons_self, rfl⟩
        · cases hnow
      · split at hlater
        · cases hlater
        · obtain ⟨x', hx', henv⟩ := ih hlater
          exact ⟨x', List.mem_cons_of_mem x hx', henv⟩

theorem netChainCalls_env {pcb : Pcb} {chain : PbufChain} : ∀ {n : NetEndpoint} {c : Call},
    c ∈ netChainCalls lib pcb chain n → ∃ segment ∈ chain, ∃ x ∈ segment, c.env = x.env := by
  induction chain with
  | nil => exact fun hc => absurd hc List.not_mem_nil
  | cons segment chain ih =>
      intro n c hc
      unfold netChainCalls at hc
      dsimp only at hc
      rcases List.mem_append.mp hc with hnow | hlater
      · exact ⟨segment, List.mem_cons_self, netSegmentCalls_env hnow⟩
      · split at hlater
        · cases hlater
        · obtain ⟨segment', hsegment, hx⟩ := ih hlater
          exact ⟨segment', List.mem_cons_of_mem segment hsegment, hx⟩

/-- The calls of an arrival are made at its clock. -/
theorem transportStep_clock {nowMs : UInt32} {t : Transports} {a : Arrival} {c : Call}
    (ha : a.OnClock nowMs) (hc : c ∈ ((transportMachine lib).step t a).2) :
    c.env.bleNowMs = nowMs := by
  cases a with
  | ble w =>
      obtain ⟨data, -, rfl⟩ := Option.mem_map.mp (Option.mem_toList.mp hc)
      exact ha
  | net i harrives =>
      have hc : c ∈ netCalls lib i t.net := hc
      unfold netCalls at hc
      split at hc
      next pcb chain =>
        split at hc
        · obtain ⟨segment, hsegment, x, hx, henv⟩ := netChainCalls_env hc
          rw [henv]
          exact ha segment hsegment x hx
        · cases hc
      next => cases hc

theorem transports_clock {nowMs : UInt32} (arrivals : List Arrival) :
    ∀ {t : Transports}, (∀ a ∈ arrivals, a.OnClock nowMs) →
      ∀ c ∈ (transportMachine lib).trace t arrivals, c.env.bleNowMs = nowMs := by
  induction arrivals with
  | nil => exact fun _ c hc => absurd hc List.not_mem_nil
  | cons a arrivals ih =>
      intro t hall c hc
      rcases List.mem_append.mp hc with hnow | hlater
      · exact transportStep_clock (hall a List.mem_cons_self) hnow
      · exact ih (fun a' ha' => hall a' (List.mem_cons_of_mem a ha')) c hlater

/-- Every call of a poll has the clock of the pass. -/
theorem calls_clock (m : Firmware) (arrivals : List Arrival) (netPoll : Option WifiEnv) :
    ∀ c ∈ m.calls lib arrivals netPoll, c.env.bleNowMs = m.usb.bleNowMs := by
  apply transports_clock
  intro a ha
  rcases List.mem_append.mp ha with harrived | hpoll
  · obtain ⟨a', -, rfl⟩ := List.mem_map.mp harrived
    exact atClock_onClock _ a'
  · obtain ⟨env, -, rfl⟩ := Option.mem_map.mp (Option.mem_toList.mp hpoll)
    trivial

-- ========================================================= one call's core

/-- A frame's effect on the core is its command's. -/
theorem frame_core (d : Device) (env : FrameEnv) (data : List UInt8) (respCap : Nat) :
    (commandProcessFrame lib d env data respCap).2.core
      = coreAfter d.core env.bleNowMs ((framePlaintext lib d.noise data).bind commandCall) := by
  rcases frame_cases lib d env data respCap with
    ⟨hframe, -, hnone⟩ | ⟨hhandshake, response, hframe⟩ | ⟨p, d₁, hdispatch, hframe⟩
  · rw [hframe, hnone]
    rfl
  · rw [hframe, handshake_closed hhandshake]
    rfl
  · rw [hframe, framePlaintext_iff.mpr ⟨d₁, hdispatch⟩]
    obtain ⟨noise, hreceipt⟩ := sendReceipt_noise lib
      (bleHandleAuthenticatedCommand d₁ env p).2 respCap
      (bleHandleAuthenticatedCommand d₁ env p).1
    unfold afterCommand
    dsimp only
    rw [hreceipt]
    have hcore : d₁.core = d.core := by
      obtain ⟨-, -, noise', -, rfl⟩ := hdispatch
      rfl
    rw [← hcore]
    exact (command_effect d₁ env p).core

variable (lib) in
/-- The core call of a frame's command, if it opens to one that makes
one. -/
def commandCalls (s : Device × Option Key) (c : Call) : List TransportCall :=
  ((framePlaintext lib s.1.noise c.data).bind commandCall).toList

/-- A call is at most one core call, at its clock. -/
theorem call_core (s : Device × Option Key) {nowMs : UInt32} (c : Call)
    (hclock : c.env.bleNowMs = nowMs) :
    let calls := (commandCalls lib s c).map fun t => (false, t.coreCall nowMs)
    coreMachine.final s.1.core calls = ((commandMachine lib).step s c).1.1.core ∧
      (coreMachine.trace s.1.core calls).map .core
        = ((commandMachine lib).step s c).2.map MainEvent.event := by
  subst hclock
  unfold commandCalls
  constructor
  · show _ = (commandProcessFrame lib s.1 c.env c.data bridgeTransportResponseMax).2.core
    rw [frame_core]
    cases (framePlaintext lib s.1.noise c.data).bind commandCall <;> rfl
  · show _ = (callEvents lib s.1 s.2 c).map MainEvent.event
    unfold callEvents
    cases framePlaintext lib s.1.noise c.data with
    | none => rfl
    | some p =>
        cases hcall : commandCall p with
        | none => simp [hcall]
        | some call =>
            simp only [Option.bind_some, hcall, Option.toList_some, List.map_cons, List.map_nil,
              Machine.trace_cons, Machine.trace_nil, List.append_nil, List.map_map]
            rfl

/-- The calls of a poll. -/
theorem calls_core {nowMs : UInt32} (calls : List Call) : ∀ s : Device × Option Key,
    (∀ c ∈ calls, c.env.bleNowMs = nowMs) →
    let ts := (commandMachine lib).along (commandCalls lib) s calls
    coreMachine.final s.1.core (ts.map fun t => (false, t.coreCall nowMs))
        = ((commandMachine lib).final s calls).1.core ∧
      (coreMachine.trace s.1.core (ts.map fun t => (false, t.coreCall nowMs))).map .core
        = ((commandMachine lib).trace s calls).map MainEvent.event := by
  induction calls with
  | nil => exact fun _ _ => ⟨rfl, rfl⟩
  | cons c calls ih =>
      intro s hclock
      obtain ⟨hfinal, htrace⟩ := @call_core lib s nowMs c (hclock c List.mem_cons_self)
      obtain ⟨hfinal', htrace'⟩ := ih ((commandMachine lib).step s c).1
        fun c' hc' => hclock c' (List.mem_cons_of_mem c hc')
      constructor
      · rw [Machine.along, List.map_append, Machine.final_append, hfinal]
        exact hfinal'
      · rw [Machine.along, List.map_append, Machine.trace_append, hfinal, List.map_append,
          htrace, htrace', Machine.trace_cons, List.map_append]

/-- The device after the calls of a poll. -/
theorem calls_device (t : Transports) (key : Option Key) (arrivals : List Arrival) :
    ((commandMachine lib).final (t.device, key) ((transportMachine lib).trace t arrivals)).1
      = ((transportMachine lib).final t arrivals).device := by
  rw [← transports_make arrivals t []]
  generalize (transportMachine lib).trace t arrivals = calls
  generalize ([] : List Spent) = spent
  generalize t.device = d
  induction calls generalizing d key spent with
  | nil => rfl
  | cons c calls ih => exact ih _ _ _

-- ================================================== as the keyboard side

variable (lib) in
/-- What the keyboard side is answered in a step of the loop; of a poll it
sees the core calls of the commands that came. -/
def Firmware.usbInputs (m : Firmware) : MainInput → List UsbInput
  | .usb i _ => [i]
  | .asyncPoll arrivals netPoll =>
      [.asyncPoll ((commandMachine lib).along (commandCalls lib) (m.device, m.key)
        (m.calls lib arrivals netPoll))]

/-- A poll of the transports, as the keyboard side sees it. -/
theorem transportsPoll_usb {m : Firmware} (hpc : m.usb.pc = .poll) (arrivals : List Arrival)
    (netPoll : Option WifiEnv) :
    usbStep m.usb (.asyncPoll ((commandMachine lib).along (commandCalls lib) (m.device, m.key)
        (m.calls lib arrivals netPoll)))
      = ((transportsPoll lib m arrivals netPoll).1.usb,
        (transportsPoll lib m arrivals netPoll).2.map MainEvent.event) := by
  obtain ⟨hfinal, htrace⟩ := calls_core (m.calls lib arrivals netPoll) (m.device, m.key)
    (calls_clock m arrivals netPoll)
  have hdevice := @calls_device lib m.transports m.key (m.met lib arrivals netPoll)
  generalize (commandMachine lib).along (commandCalls lib) (m.device, m.key)
    (m.calls lib arrivals netPoll) = ts at hfinal htrace ⊢
  have hcalls : (ts.map (TransportCall.coreCall m.usb.bleNowMs)).map ((false, ·))
      = ts.map fun t => (false, t.coreCall m.usb.bleNowMs) := List.map_map
  have hcore : coreMachine.final m.usb.core (ts.map fun t => (false, t.coreCall m.usb.bleNowMs))
      = ((transportMachine lib).final m.transports (m.met lib arrivals netPoll)).device.core := by
    rw [← m.shared, ← hdevice]
    exact hfinal
  unfold usbStep
  rw [hpc]
  dsimp only
  unfold UsbMain.callCore transportsPoll
  dsimp only
  rw [hcalls, hcore, ← m.shared]
  exact congrArg _ htrace

/-- One step of the loop is one of the keyboard side. -/
theorem mainStep_usb (m : Firmware) (i : MainInput) :
    ∃ j, m.usbInputs lib i = [j] ∧ usbStep m.usb j
      = ((mainStep lib m i).1.usb, (mainStep lib m i).2.map MainEvent.event) := by
  cases i with
  | usb j own =>
      refine ⟨j, rfl, ?_⟩
      have hevents : (keyboardStep m j).2.map MainEvent.event = (usbStep m.usb j).2 := by
        unfold keyboardStep
        dsimp only
        rw [List.map_map]
        exact List.map_id _
      exact congrArg (Prod.mk (usbStep m.usb j).1) hevents.symm
  | asyncPoll arrivals netPoll =>
      refine ⟨_, rfl, ?_⟩
      unfold mainStep
      dsimp only
      by_cases hpc : m.usb.pc = .poll
      · rw [if_pos hpc]
        exact transportsPoll_usb hpc arrivals netPoll
      · rw [if_neg hpc]
        exact usbStep_skip hpc _

/-- Over every run the loop is the keyboard side with the commands that
came. -/
theorem main_usbInputs (m : Firmware) (is : List MainInput) :
    let js := (mainMachine lib).along (Firmware.usbInputs lib) m is
    usbMachine.final m.usb js = ((mainMachine lib).final m is).usb ∧
      usbMachine.trace m.usb js = ((mainMachine lib).trace m is).map MainEvent.event := by
  rw [← List.filterMap_eq_map]
  apply (mainMachine lib).projects_along usbMachine (f := Firmware.usb)
  intro m i
  obtain ⟨j, hinputs, hj⟩ := @mainStep_usb lib m i
  rw [hinputs, List.filterMap_eq_map]
  refine ⟨congrArg Prod.fst hj, ?_⟩
  rw [Machine.trace_cons, Machine.trace_nil, List.append_nil]
  exact congrArg Prod.snd hj

/-- It is some run of the keyboard side. -/
theorem main_usb (m : Firmware) (is : List MainInput) :
    ∃ js, usbMachine.final m.usb js = ((mainMachine lib).final m is).usb ∧
      usbMachine.trace m.usb js = ((mainMachine lib).trace m is).map MainEvent.event :=
  ⟨_, main_usbInputs m is⟩

-- ================================================ the keyboard's own calls

/-- The core calls of the head of the main loop. -/
def mainLoopCalls (m : UsbMain) (nowMs : UInt32) : List CoreCall :=
  if nowMs - m.lastUsbDrainMs ≥ 5 then
    if { m with usbNowMs := nowMs, bleNowMs := nowMs : UsbMain }.stalled
    then [.abort, .tick nowMs] else []
  else [.tick nowMs]

/-- The core calls of a step of the keyboard side. -/
def UsbMain.coreCalls (m : UsbMain) (i : UsbInput) : List CoreCall :=
  match m.pc, i with
  | .top, .tudTask cbs nowMs =>
      cbs.flatMap UsbCallback.coreCalls ++ mainLoopCalls (tudTask m cbs).1 nowMs
  | .loop, .ready ready =>
      if ready then .next m.usbNowMs false ::
        if (bridgeCoreNext m.core m.usbNowMs).1 ≠ .ok then [.tick m.usbNowMs] else []
      else [.tick m.usbNowMs]
  | .press _, .report accepted => if accepted then [] else [.tick m.usbNowMs]
  | .task _, .tudTask cbs _ => cbs.flatMap UsbCallback.coreCalls
  | .recheck, .ready ready => if ready then [] else [.tick m.usbNowMs]
  | .release, .report accepted => if accepted then [] else [.tick m.usbNowMs]
  | .poll, .asyncPoll calls => calls.map (TransportCall.coreCall m.bleNowMs)
  | _, _ => []

theorem mainLoop_core (m : UsbMain) (nowMs : UInt32) :
    coreMachine.final m.core ((mainLoopCalls m nowMs).map (false, ·))
      = (mainLoop m nowMs).1.core := by
  unfold mainLoopCalls mainLoop drainEnter
  by_cases hgate : nowMs - m.lastUsbDrainMs ≥ 5
  · by_cases hstalled : { m with usbNowMs := nowMs, bleNowMs := nowMs : UsbMain }.stalled
    · simp only [hgate, hstalled, if_true]
      rfl
    · simp only [hgate, hstalled, if_true, if_false]
      rfl
  · simp only [hgate, if_false]
    rfl

theorem drainNext_core (m : UsbMain) :
    coreMachine.final m.core ((.next m.usbNowMs false ::
      if (bridgeCoreNext m.core m.usbNowMs).1 ≠ .ok then [.tick m.usbNowMs] else []).map
        (false, ·)) = (drainNext m).1.core := by
  unfold drainNext
  by_cases hok : (bridgeCoreNext m.core m.usbNowMs).1 = .ok
  · simp only [hok, ne_eq, not_true_eq_false, if_false]
    rfl
  · simp only [hok, ne_eq, not_false_eq_true, if_true]
    rfl

/-- What a step makes of the core. -/
theorem usbStep_core (m : UsbMain) (i : UsbInput) :
    coreMachine.final m.core ((m.coreCalls i).map (false, ·)) = (usbStep m i).1.core := by
  unfold UsbMain.coreCalls usbStep
  cases m.pc with
  | top =>
      cases i with
      | tudTask cbs nowMs =>
          dsimp only
          rw [List.map_append, Machine.final_append]
          exact mainLoop_core (tudTask m cbs).1 nowMs
      | _ => rfl
  | loop =>
      cases i with
      | ready ready =>
          cases ready with
          | true => exact drainNext_core m
          | false => rfl
      | _ => rfl
  | press stroke =>
      cases i with
      | report accepted => cases accepted <;> rfl
      | _ => rfl
  | recheck =>
      cases i with
      | ready ready => cases ready <;> rfl
      | _ => rfl
  | release =>
      cases i with
      | report accepted => cases accepted <;> rfl
      | _ => rfl
  | wait deadline => cases i <;> rfl
  | task deadline => cases i <;> rfl
  | poll => cases i <;> rfl

-- =========================================================== as a life

theorem witness_silent (keys : HeaderKeys) (hs : List Happening) :
    ∀ s, (witnessMachine lib keys).trace s hs = [] := by
  induction hs with
  | nil => exact fun _ => rfl
  | cons h hs ih => exact fun s => ih ((witnessMachine lib keys).step s h).1

/-- A call of the core of its own. -/
theorem core_happens (keys : HeaderKeys) (calls : List CoreCall) :
    ∀ (d : Device) (key : Option Key),
      (witnessMachine lib keys).final (.on d, key) (calls.map .core)
        = (.on { d with core := coreMachine.final d.core (calls.map (false, ·)) }, key) := by
  induction calls with
  | nil => exact fun _ _ => rfl
  | cons call calls ih => exact fun d key => ih { d with core := (coreOp d.core call).2 } key

/-- A call of `command_process_frame`. -/
theorem frames_happen (keys : HeaderKeys) (calls : List Call) :
    ∀ (d : Device) (key : Option Key),
      (witnessMachine lib keys).final (.on d, key) (calls.map fun c => .frame c.env c.data)
        = (.on ((commandMachine lib).final (d, key) calls).1,
            ((commandMachine lib).final (d, key) calls).2) := by
  induction calls with
  | nil => exact fun _ _ => rfl
  | cons c calls ih => exact fun d key => ih _ _

variable (lib) in
/-- What happens to the device in a step of the loop: core calls of the
keyboard side's own, or the frames of a poll. -/
def Firmware.happenings (m : Firmware) : MainInput → List Happening
  | .usb i _ => (m.usb.coreCalls i).map .core
  | .asyncPoll arrivals netPoll =>
      if m.usb.pc = .poll then
        (m.calls lib arrivals netPoll).map fun c => .frame c.env c.data
      else []

theorem mainStep_happens (keys : HeaderKeys) (m : Firmware) (i : MainInput) :
    (witnessMachine lib keys).final (.on m.device, m.key) (m.happenings lib i)
      = (.on (mainStep lib m i).1.device, (mainStep lib m i).1.key) := by
  unfold Firmware.happenings mainStep
  cases i with
  | usb j own =>
      have hcore : m.device.core = m.usb.core := m.shared
      dsimp only
      rw [core_happens, hcore, usbStep_core]
      rfl
  | asyncPoll arrivals netPoll =>
      dsimp only
      by_cases hpc : m.usb.pc = .poll
      · have hdevice := @calls_device lib m.transports m.key (m.met lib arrivals netPoll)
        rw [if_pos hpc, if_pos hpc, frames_happen]
        show (Power.on ((commandMachine lib).final (m.transports.device, m.key)
          ((transportMachine lib).trace m.transports (m.met lib arrivals netPoll))).1, _) = _
        rw [hdevice]
        rfl
      · rw [if_neg hpc, if_neg hpc]
        rfl

/-- Over every run the device of the loop lives the life of its
happenings. -/
theorem main_happenings (keys : HeaderKeys) (m : Firmware) (is : List MainInput) :
    (witnessMachine lib keys).final (.on m.device, m.key)
        ((mainMachine lib).along (Firmware.happenings lib) m is)
      = (.on ((mainMachine lib).final m is).device, ((mainMachine lib).final m is).key) := by
  refine ((mainMachine lib).projects_along (witnessMachine lib keys)
    (f := fun m => (.on m.device, m.key)) (g := fun _ => none) ?_ is m).1
  intro m i
  refine ⟨mainStep_happens keys m i, ?_⟩
  rw [witness_silent, List.filterMap_none]

/-- The loop refines both of its sides, on one core. Over every run from
the head of the loop, whatever arrives and however the endpoint answers:
its keyboard side is in the state, and has shown the events, of the run in
which a poll makes the core calls of the commands that its frames opened
to; its device and the key of its session are those of the life in which
the keyboard side makes its core calls and the frames of the polls come;
and the two have the same core. -/
theorem main_refines (keys : HeaderKeys) (d : Device) (is : List MainInput) :
    let m := firmwareInit d
    let m' := (mainMachine lib).final m is
    let js := (mainMachine lib).along (Firmware.usbInputs lib) m is
    let hs := (mainMachine lib).along (Firmware.happenings lib) m is
    usbMachine.final m.usb js = m'.usb ∧
      usbMachine.trace m.usb js = ((mainMachine lib).trace m is).map MainEvent.event ∧
      (witnessMachine lib keys).final (.on d, none) hs = (.on m'.device, m'.key) ∧
      m'.device.core = m'.usb.core := by
  intro m m' js hs
  obtain ⟨hfinal, htrace⟩ := @main_usbInputs lib m is
  exact ⟨hfinal, htrace, main_happenings keys m is, m'.shared⟩

end PicoBridge
