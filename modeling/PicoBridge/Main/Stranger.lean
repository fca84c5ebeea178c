/-
What a stranger can make the keyboard do: nothing.

# The argument

In a part of a run where every call on the transports is an outsider's,
no frame opens (`NothingOpens`), so no event of the core has a command
behind it and the device moves by its keyboard side alone (`Estranged`). A
press in such a part still has its two commands (`commanded_of_history`),
so they lie before it, and from the confirmation on the core has been
executing the job (`history_executing`).

# What an outsider has

Everything that it can make, and every frame that the device has opened,
but not what the session's own controller has sealed and the device has
not opened yet: a genuine frame that was held back still opens
(`Outsider.Sends`).
-/
import PicoBridge.Main.Provenance

namespace PicoBridge

open Lib (Machine)

variable {lib : Crypto} {o : Outsider lib}

-- ============================================================= the two parts

/-- The sessions that a poll opens have keys of their own. -/
def FreshPoll (lib : Crypto) (m : Firmware) : MainInput → Prop
  | .asyncPoll arrivals netPoll => m.usb.pc = .poll →
      (callMachine lib).StepsMeet (fun s c => FreshSession lib s.1 s.2 c) (m.device, m.spent)
        (m.calls lib arrivals netPoll)
  | .usb _ _ => True

/-- Every call of a poll is the outsider's. -/
def Outsider.Polls (o : Outsider lib) (m : Firmware) : MainInput → Prop
  | .asyncPoll arrivals netPoll => m.usb.pc = .poll →
      (callMachine lib).StepsMeet o.Sends (m.device, m.spent) (m.calls lib arrivals netPoll)
  | .usb _ _ => True

/-- The roster and the two flash records, kept. -/
structure KeepsRosters (d d' : Device) : Prop where
  controllers : d'.controllers = d.controllers
  store : d'.store = d.store
  radio : d'.radio = d.radio

/-- The loop while an outsider has the transports. -/
structure Estranged (o : Outsider lib) (d : Device) (m : Firmware) : Prop where
  records : KeepsRosters d m.device
  outside : o.Outside m.device
  behind : Behind m.device m.spent

-- ================================================================ the steps

/-- The device and what it has opened, after a poll. -/
theorem transportsPoll_spent (m : Firmware) (arrivals : List Arrival) (netPoll : Option WifiEnv) :
    ((transportsPoll lib m arrivals netPoll).1.device,
        (transportsPoll lib m arrivals netPoll).1.spent)
      = (callMachine lib).final (m.device, m.spent) (m.calls lib arrivals netPoll) := by
  have hdevice := @transports_make lib (m.met lib arrivals netPoll) m.transports m.spent
  exact Prod.ext hdevice.symm rfl

/-- What has been opened stays behind. -/
theorem behind_mainStep {m : Firmware} (h : Behind m.device m.spent) {i : MainInput}
    (hfresh : FreshPoll lib m i) :
    Behind (mainStep lib m i).1.device (mainStep lib m i).1.spent := by
  rcases mainStep_cases lib m i with ⟨j, -, hstep⟩ | ⟨arrivals, netPoll, hpc, rfl, hstep⟩ |
    ⟨-, -, hstep⟩
  · rw [hstep]
    exact h
  · have hspent := @transportsPoll_spent lib m arrivals netPoll
    have hrun : Behind ((callMachine lib).final (m.device, m.spent)
        (m.calls lib arrivals netPoll)).1 ((callMachine lib).final (m.device, m.spent)
        (m.calls lib arrivals netPoll)).2 :=
      (callMachine lib).run_inv (P := fun s _ => Behind s.1 s.2)
        (fun _ _ _ hs hc => hs.frame hc) _ _ [] h (hfresh hpc)
    rw [← hspent] at hrun
    rw [hstep]
    exact hrun
  · rw [hstep]
    exact h

variable (lib) in
/-- No call of a poll opens a frame. -/
def NothingOpens (m : Firmware) : MainInput → Prop
  | .asyncPoll arrivals netPoll => m.usb.pc = .poll →
      (callMachine lib).StepsMeet (fun s c => framePlaintext lib s.1.noise c.data = none)
        (m.device, m.spent) (m.calls lib arrivals netPoll)
  | .usb _ _ => True

/-- No call of the outsider opens. -/
theorem outsider_closed {d : Device} {s : Device × List Spent} {calls : List Call}
    (hholds : o.Holds d s) (hsends : (callMachine lib).StepsMeet o.Sends s calls) :
    (callMachine lib).StepsMeet (fun s c => framePlaintext lib s.1.noise c.data = none) s calls :=
  (callMachine lib).stepsMeet_imp (I := o.Holds d)
    (fun _ _ hs hc => ⟨(Outsider.holds_call hs hc).1, Outsider.closed hs.behind hs.outside hc⟩)
    hholds hsends

/-- What does not open makes no event. -/
theorem closed_events {calls : List Call} :
    ∀ {s : Device × List Spent} {key : Option Key},
      (callMachine lib).StepsMeet (fun s c => framePlaintext lib s.1.noise c.data = none) s calls →
      (commandMachine lib).trace (s.1, key) calls = [] := by
  induction calls with
  | nil => exact fun _ => rfl
  | cons c calls ih =>
      intro s key hclosed
      have hnone : callEvents lib s.1 key c = [] := by
        unfold callEvents
        rw [hclosed.1]
      have hrest : (commandMachine lib).trace
          ((commandMachine lib).step (s.1, key) c).1 calls = [] := ih hclosed.2
      rw [Machine.trace_cons, hrest, List.append_nil]
      exact hnone

theorem Estranged.closed {d : Device} {m : Firmware} (h : Estranged o d m) {i : MainInput}
    (hpolls : o.Polls m i) : NothingOpens lib m i := by
  cases i with
  | usb j own => trivial
  | asyncPoll arrivals netPoll =>
      intro hpc
      have hholds : o.Holds m.device (m.device, m.spent) := ⟨rfl, h.outside, h.behind⟩
      exact outsider_closed hholds (hpolls hpc)

/-- A step while an outsider has the transports. -/
theorem estranged_step {d : Device} {m : Firmware} (h : Estranged o d m) {i : MainInput}
    (hpolls : o.Polls m i) :
    Estranged o d (mainStep lib m i).1 ∧ ∀ e ∈ (mainStep lib m i).2, e.command = none := by
  rcases mainStep_cases lib m i with ⟨j, -, hstep⟩ | ⟨arrivals, netPoll, hpc, rfl, hstep⟩ |
    ⟨-, -, hstep⟩
  · rw [hstep]
    refine ⟨⟨⟨h.records.controllers, h.records.store, h.records.radio⟩,
      ⟨h.outside.session, h.outside.roster⟩, h.behind⟩, fun e he => ?_⟩
    obtain ⟨event, -, rfl⟩ := List.mem_map.mp he
    rfl
  · have hholds : o.Holds m.device (m.device, m.spent) := ⟨rfl, h.outside, h.behind⟩
    have hsends := hpolls hpc
    obtain ⟨hafter, -⟩ := Outsider.calls_inert hholds hsends
    rw [← transportsPoll_spent] at hafter
    obtain ⟨-, hcontrollers, hstore, hradio⟩ := hafter.device.kept
    have hnone : (transportsPoll lib m arrivals netPoll).2 = [] :=
      closed_events (outsider_closed hholds hsends)
    rw [hstep, hnone]
    exact ⟨⟨⟨hcontrollers.trans h.records.controllers, hstore.trans h.records.store,
      hradio.trans h.records.radio⟩, hafter.outside, hafter.behind⟩,
      fun e he => absurd he List.not_mem_nil⟩
  · rw [hstep]
    exact ⟨h, fun e he => absurd he List.not_mem_nil⟩

/-- A part of a run with an outsider on the transports. -/
theorem estranged_run {m : Firmware} (houtside : o.Outside m.device)
    (hbehind : Behind m.device m.spent) {is : List MainInput}
    (hpolls : (mainMachine lib).StepsMeet o.Polls m is) :
    Estranged o m.device ((mainMachine lib).final m is) ∧
      (mainMachine lib).StepsMeet (NothingOpens lib) m is ∧
      ∀ e ∈ (mainMachine lib).trace m is, e.command = none := by
  have hstart : Estranged o m.device m := ⟨⟨rfl, rfl, rfl⟩, houtside, hbehind⟩
  have hclosed := (mainMachine lib).stepsMeet_imp (I := Estranged o m.device)
    (fun _ _ h hi => ⟨(estranged_step h hi).1, h.closed hi⟩) hstart hpolls
  have hrun := (mainMachine lib).run_inv (G := o.Polls)
    (P := fun n es => Estranged o m.device n ∧ ∀ e ∈ es, e.command = none) ?_ is m []
    ⟨hstart, fun e he => absurd he List.not_mem_nil⟩ hpolls
  · exact ⟨hrun.1, hclosed, hrun.2⟩
  intro n es i h hi
  obtain ⟨hestranged, hnone⟩ := estranged_step h.1 hi
  refine ⟨hestranged, fun e he => ?_⟩
  exact (List.mem_append.mp he).elim (h.2 e) (hnone e)

-- ============================================================== the presses

/-- A job whose commands lie in an earlier part of a run has its history
there. -/
theorem Commanded.early {early late : List MainEvent} {stage confirm : Command} {j : StagedJob}
    {nowMs : UInt32} {before between during : List MainEvent}
    (h : Commanded lib (early ++ late) stage confirm j nowMs before between during)
    (hlate : ∀ e ∈ late, e.command = none) :
    ∃ during', Commanded lib early stage confirm j nowMs before between during' := by
  have hnot : ∀ {event : UsbEvent} {c : Command} {rest tail : List MainEvent},
      late = rest ++ ⟨event, some c⟩ :: tail → False := by
    rintro event c rest tail rfl
    cases hlate ⟨event, some c⟩ (by simp)
  have hevents : (before ++ ⟨.core (.offer j), some stage⟩ :: between) ++
      ⟨.core (.approve (j.owner, j.id) nowMs), some confirm⟩ :: during = early ++ late := by
    rw [h.events, List.append_assoc, List.cons_append]
  rcases List.append_eq_append_iff.mp hevents with ⟨rest, hearly, hrest⟩ | ⟨rest, -, hrest⟩
  · cases rest with
    | nil => exact (@hnot _ _ [] _ hrest.symm).elim
    | cons approved during' =>
        obtain ⟨rfl, rfl⟩ := List.cons.inj hrest
        refine ⟨during', ?_, h.staged, h.confirmed, h.confirms, h.inTime, h.between, ?_⟩
        · rw [hearly, List.append_assoc, List.cons_append]
        · intro l hl
          obtain ⟨e, he, heq⟩ := List.mem_map.mp hl
          exact h.during l (List.mem_map.mpr ⟨e, List.mem_append_left late he, heq⟩)
  · exact (hnot hrest).elim

/-- Labels that are all strokes taken. -/
theorem takes_of_all {ls : List CoreLabel} (h : ∀ l ∈ ls, ∃ stroke, l = .take stroke) :
    ∃ taken : List BridgeStroke, ls = taken.map .take := by
  induction ls with
  | nil => exact ⟨[], rfl⟩
  | cons l ls ih =>
      obtain ⟨stroke, rfl⟩ := h l List.mem_cons_self
      obtain ⟨taken, rfl⟩ := ih fun l hl => h l (List.mem_cons_of_mem _ hl)
      exact ⟨stroke :: taken, rfl⟩

theorem mem_coreLabelsOf {es : List UsbEvent} {l : CoreLabel} (h : l ∈ coreLabelsOf es) :
    .core l ∈ es := by
  obtain ⟨e, he, hl⟩ := List.mem_filterMap.mp h
  cases e with
  | core l' =>
      cases hl
      exact he
  | _ => cases hl

/-- At the end of a run whose last job has been confirmed and not ended,
the core executes it. -/
theorem Commanded.executing {keys : HeaderKeys} {w : Power} {seedExec importExec : FlashExec}
    {d : Device} (hboot : bootPower lib keys w seedExec importExec = .on d) {is : List MainInput}
    {stage confirm : Command} {j : StagedJob} {nowMs : UInt32}
    {before between during : List MainEvent}
    (h : Commanded lib ((mainMachine lib).trace (firmwareInit d) is) stage confirm j nowMs before
      between during) :
    ((mainMachine lib).final (firmwareInit d) is).device.core.state = .executing := by
  obtain ⟨js, hfinal, htrace⟩ := @main_usb lib (firmwareInit d) is
  rw [firmwareInit_usb (boot_ready hboot).1] at hfinal htrace
  have hhistory : JobHistory (usbMachine.trace usbMainInit js) j nowMs
      (before.map MainEvent.event) (between.map MainEvent.event)
      (during.map MainEvent.event) := by
    refine ⟨?_, h.inTime, ?_, ?_⟩
    · rw [htrace, h.events, List.map_append, List.map_cons, List.map_append, List.map_cons]
    · refine List.eq_nil_iff_forall_not_mem.mpr fun l hl => ?_
      exact h.between l (mem_coreLabelsOf hl)
    · exact takes_of_all fun l hl => h.during l (mem_coreLabelsOf hl)
  have hexecuting := history_executing hhistory
  rw [hfinal] at hexecuting
  have hshared : ((mainMachine lib).final (firmwareInit d) is).device.core = _ :=
    ((mainMachine lib).final (firmwareInit d) is).shared
  rw [hshared]
  exact hexecuting

/-- A stranger types nothing. Take any run of `main`'s loop on a device
that has booted, whose sessions have keys of their own, and let a sender
have the transports from then on that has neither the session's keys nor
the private key of an enrolled controller, nor a genuine frame that the
device has not opened yet. Whatever it sends, and whatever the endpoint and
the clock do: no frame opens, so nothing is dispatched; the roster and both
flash records stay; and unless a confirmed job was being typed already no
press report is made, so a job that waits for its confirmation is never
typed. -/
theorem stranger_types_nothing (hlib : lib.OpensSealed) (o : Outsider lib) {keys : HeaderKeys}
    {w : Power} {seedExec importExec : FlashExec} {d : Device}
    (hboot : bootPower lib keys w seedExec importExec = .on d) {early late : List MainInput}
    {m : Firmware} (hm : (mainMachine lib).final (firmwareInit d) early = m)
    (hfresh : (mainMachine lib).StepsMeet (FreshPoll lib) (firmwareInit d) early)
    (houtside : o.Outside m.device) (hpolls : (mainMachine lib).StepsMeet o.Polls m late) :
    (mainMachine lib).StepsMeet (NothingOpens lib) m late ∧
      KeepsRosters m.device ((mainMachine lib).final m late).device ∧
      (∀ e ∈ (mainMachine lib).trace m late, e.command = none) ∧
      (m.device.core.state ≠ .executing →
        ∀ e ∈ (mainMachine lib).trace m late, e.event.press? = none) := by
  have hbehind : Behind m.device m.spent := by
    rw [← hm]
    refine (mainMachine lib).run_inv (G := FreshPoll lib)
      (P := fun m _ => Behind m.device m.spent) (fun _ _ _ hs hi => behind_mainStep hs hi)
      early _ [] (fun hready => ?_) hfresh
    obtain ⟨key, hkey, -⟩ := (boot_ready hboot).2 d rfl hready
    cases hkey
  obtain ⟨hestranged, hclosed, hnone⟩ := estranged_run houtside hbehind hpolls
  refine ⟨hclosed, hestranged.records, hnone, fun hidle e he => ?_⟩
  by_contra hpress
  obtain ⟨r, hr⟩ := Option.ne_none_iff_exists'.mp hpress
  -- the press has a history in the whole run, and its commands lie before
  obtain ⟨pre, post, hlate⟩ := List.append_of_mem he
  have hsplit : (mainMachine lib).trace (firmwareInit d) (early ++ late)
      = ((mainMachine lib).trace (firmwareInit d) early ++ pre) ++ e :: post := by
    rw [Machine.trace_append, hm, hlate, List.append_assoc]
  obtain ⟨js, htrace⟩ := main_events hboot (early ++ late) hsplit
  obtain ⟨j, nowMs, _, _, _, hhistory, -⟩ := press_origin htrace hr
  obtain ⟨_, _, _, _, _, _, _, _, _, hcommanded, -, -⟩ :=
    commanded_of_history (pre_sourced hlib hboot (early ++ late) hsplit) hhistory
  obtain ⟨during, hearly⟩ := hcommanded.early fun e' he' => hnone e' (by
    rw [hlate]
    exact List.mem_append_left _ he')
  refine hidle ?_
  rw [← hm]
  exact hearly.executing hboot

/-- The recovery admin's session, with a job that waits for its
confirmation. -/
def stagedRun : List MainInput :=
  [.usb (.tudTask [.mount] 0) (fun _ h => by cases h),
    .asyncPoll [wholeWrite genuineHello, wholeWrite (sealedAt 0 stageFrame)] none]

def stagedFirmware : Firmware :=
  (mainMachine veiledCrypto).final (firmwareInit veiledBench) stagedRun

/-- The outsider replays the admin's command and forges a handshake, and
the keyboard side goes on. -/
def strangerRun : List MainInput :=
  [.usb (.tudTask [] 0) (fun _ h => by cases h),
    .asyncPoll [wholeWrite (sealedAt 0 stageFrame), wholeWrite forgedHello] none,
    .usb (.tudTask [] 10) (fun _ h => by cases h), .usb (.ready true) (fun _ h => by cases h)]

theorem wholeWrite_atClock (data : List UInt8) :
    (wholeWrite data).atClock 0 = wholeWrite data := rfl

/-- Whole writes at clock 0 are met as they are. -/
theorem wholeWrites_calls (m : Firmware) (hclock : m.usb.bleNowMs = 0) {first second : List UInt8}
    (hfirst : first ≠ [] ∧ first.length ≤ bleCmdBufMax)
    (hsecond : second ≠ [] ∧ second.length ≤ bleCmdBufMax) :
    m.calls lib [wholeWrite first, wholeWrite second] none
      = [⟨benchEnv, first⟩, ⟨benchEnv, second⟩] := by
  have hmet : m.met lib [wholeWrite first, wholeWrite second] none
      = [wholeWrite first, wholeWrite second].map (Arrival.atClock m.usb.bleNowMs) :=
    List.append_nil _
  unfold Firmware.calls
  rw [hmet, hclock, List.map_cons, List.map_cons, List.map_nil, wholeWrite_atClock,
    wholeWrite_atClock, trace_whole _ hfirst.1 hfirst.2, trace_whole _ hsecond.1 hsecond.2,
    Machine.trace_nil]

theorem strangerRun_polls :
    (mainMachine veiledCrypto).StepsMeet benchOutsider.Polls stagedFirmware strangerRun := by
  refine ⟨trivial, fun _ => ?_, trivial, trivial, trivial⟩
  rw [wholeWrites_calls _ (by decide +kernel) (by decide +kernel) (by decide +kernel)]
  refine ⟨?_, ?_, trivial⟩
  · exact bench_replays (by decide +kernel) (by decide +kernel) (by decide +kernel)
  · exact bench_sends (by decide +kernel) benchEnv_secret (by decide +kernel)

theorem stagedRun_fresh :
    (mainMachine veiledCrypto).StepsMeet (FreshPoll veiledCrypto) (firmwareInit veiledBench)
      stagedRun := by
  refine ⟨trivial, fun _ => ?_, trivial⟩
  rw [wholeWrites_calls _ (by decide +kernel) (by decide +kernel) (by decide +kernel)]
  exact ⟨by decide +kernel, by decide +kernel, trivial⟩

/-- The job that waits is not typed. -/
theorem stranger_types_nothing_bench :
    stagedFirmware.device.core.state = .staged ∧
      (mainMachine veiledCrypto).StepsMeet (NothingOpens veiledCrypto) stagedFirmware
        strangerRun ∧
      KeepsRosters stagedFirmware.device
        ((mainMachine veiledCrypto).final stagedFirmware strangerRun).device ∧
      (∀ e ∈ (mainMachine veiledCrypto).trace stagedFirmware strangerRun, e.command = none) ∧
      ∀ e ∈ (mainMachine veiledCrypto).trace stagedFirmware strangerRun,
        e.event.press? = none := by
  have hstaged : stagedFirmware.device.core.state = .staged := by decide +kernel
  have hidle : stagedFirmware.device.core.state ≠ .executing := by
    rw [hstaged]
    decide
  obtain ⟨hclosed, hsame, hnone, hpress⟩ := stranger_types_nothing veiled_opensSealed benchOutsider
    veiled_boots (m := stagedFirmware) rfl stagedRun_fresh
    (bench_outside (by decide +kernel) (by decide +kernel)) strangerRun_polls
  exact ⟨hstaged, hclosed, hsame, hnone, hpress hidle⟩

end PicoBridge
