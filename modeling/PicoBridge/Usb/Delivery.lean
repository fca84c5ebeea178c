/-
What reaches the endpoint of a completed job: every staged stroke is
offered to it once, in order, and the accepted presses are the staged
strokes exactly when no press was refused.

# Why a refusal loses a key

`bridge_core_next` consumes a stroke before the endpoint has answered,
and the drain that sees its press refused leaves without it. So the
presses *offered* to the endpoint are the stroke list of the job, and a
refused one is dropped from the accepted ones (`refusedRun`).

# The relation

`Delivery.Step` is a job's delivery read off the events alone: strokes
still owed, and the one in hand. The keyboard side simulates it
(`delivers_step`), through the one-shot slot of Core/Job.lean for the
core's own labels.
-/
import PicoBridge.Core.Strokes
import PicoBridge.Usb.Release

namespace PicoBridge

open Lib (Machine Trace)
open Lib.OneShot (Slot)

-- ======================================================== typable cores

/-- Every stroke still to be handed out presses a key. -/
def BridgeCore.typable (core : BridgeCore) : Prop :=
  ∀ stroke ∈ core.remaining, stroke.typable

theorem terminate_typable (core : BridgeCore) (st : BridgeState) :
    (terminate core st).typable := by
  intro stroke h
  cases h

/-- Every core call keeps the strokes to come typable. -/
theorem coreOp_typable {core : BridgeCore} (h : core.typable) (call : CoreCall) :
    (coreOp core call).2.typable :=
  coreOp_gives (Q := fun _ _ stroke => stroke.typable)
    (fun _ _ _ _ _ hc stroke hs => (stageChar_permitted hc stroke hs).typable) h call

-- ======================================================= the relation

/-- The delivery of a job: none, one not yet confirmed, one with strokes
still owed, and one with a stroke in hand besides. -/
inductive Delivery
  | idle
  | offered (j : StagedJob)
  | typing (left : List BridgeStroke)
  | pressing (stroke : BridgeStroke) (left : List BridgeStroke)

/-- What the events do to a delivery. -/
inductive Delivery.Step : Delivery → UsbEvent → Delivery → Prop
  | offer {j : StagedJob} : Step .idle (.core (.offer j)) (.offered j)
  | approve {j : StagedJob} {k : UInt32 × UInt32} {nowMs : UInt32} :
      Step (.offered j) (.core (.approve k nowMs)) (.typing j.strokes)
  | take {stroke : BridgeStroke} {left : List BridgeStroke} :
      Step (.typing (stroke :: left)) (.core (.take stroke)) (.pressing stroke left)
  | press {stroke : BridgeStroke} {left : List BridgeStroke} {accepted : Bool} :
      stroke.typable →
      Step (.pressing stroke left) (.report stroke.press accepted) (.typing left)
  | release {d : Delivery} {accepted : Bool} : Step d (.report released accepted) d
  | completed : Step (.typing []) .completed .idle
  | drop {d : Delivery} : Step d (.core .drop) .idle
  | stallAbort {d : Delivery} : Step d .stallAbort d

/-- The strokes a delivery still owes the endpoint. -/
def Delivery.owed : Delivery → Option (List BridgeStroke)
  | .idle => none
  | .offered j => some j.strokes
  | .typing left => some left
  | .pressing stroke left => some (stroke :: left)

/-- The press report an event offered to the endpoint. -/
def UsbEvent.press? : UsbEvent → Option HidReport
  | .report r _ => if r = released then none else some r
  | _ => none

/-- The press report an event says the endpoint accepted. -/
def UsbEvent.acceptedPress? : UsbEvent → Option HidReport
  | .report r true => if r = released then none else some r
  | _ => none

/-- The press reports offered to the endpoint, accepted or not. -/
def offeredPresses (es : List UsbEvent) : List HidReport :=
  es.filterMap UsbEvent.press?

/-- The press reports the endpoint accepted. -/
def acceptedPresses (es : List UsbEvent) : List HidReport :=
  es.filterMap UsbEvent.acceptedPress?

/-- An event is no press, an accepted one or a refused one. -/
theorem UsbEvent.press_cases (e : UsbEvent) :
    (e.press? = none ∧ e.acceptedPress? = none ∧ ∀ r, r ≠ released → e ≠ .report r false)
      ∨ (∃ r, r ≠ released ∧ e = .report r true ∧ e.press? = some r
          ∧ e.acceptedPress? = some r)
      ∨ ∃ r, r ≠ released ∧ e = .report r false ∧ e.press? = some r
          ∧ e.acceptedPress? = none := by
  cases e with
  | core l => exact .inl ⟨rfl, rfl, by simp⟩
  | completed => exact .inl ⟨rfl, rfl, by simp⟩
  | stallAbort => exact .inl ⟨rfl, rfl, by simp⟩
  | report r accepted =>
      by_cases hr : r = released
      · cases accepted <;> simp [UsbEvent.press?, UsbEvent.acceptedPress?, hr, eq_comm]
      · cases accepted <;> simp [UsbEvent.press?, UsbEvent.acceptedPress?, hr]

/-- A typable stroke's press is not the all-zero report. -/
theorem press_ne_released {stroke : BridgeStroke} (h : stroke.typable) :
    stroke.press ≠ released := by
  intro heq
  simp only [BridgeStroke.press, released, HidReport.mk.injEq, List.cons.injEq] at heq
  exact h heq.2.1

/-- Without a new offer, a delivery has offered the endpoint exactly the
strokes it no longer owes. -/
theorem offeredPresses_of_trace {d e : Delivery} {es : List UsbEvent}
    {rest : List BridgeStroke} (h : Trace Delivery.Step d es e) (he : e.owed = some rest)
    (hno : ∀ j, .core (.offer j) ∉ es) :
    ∃ left, d.owed = some left ∧
      offeredPresses es ++ rest.map BridgeStroke.press = left.map BridgeStroke.press := by
  induction h with
  | nil => exact ⟨rest, he, rfl⟩
  | cons hstep _ ih =>
      obtain ⟨left, howed, hpress⟩ := ih he fun j hj => hno j (List.mem_cons_of_mem _ hj)
      cases hstep with
      | offer => exact absurd List.mem_cons_self (hno _)
      | approve => exact ⟨left, howed, hpress⟩
      | take => exact ⟨left, howed, hpress⟩
      | press ht =>
          cases howed
          refine ⟨_, rfl, ?_⟩
          simp only [offeredPresses, List.filterMap_cons, UsbEvent.press?,
            press_ne_released ht, if_false, List.map_cons, List.cons_append]
          exact congrArg _ hpress
      | release => exact ⟨left, howed, hpress⟩
      | completed => cases howed
      | drop => cases howed
      | stallAbort => exact ⟨left, howed, hpress⟩

theorem acceptedPresses_sublist (es : List UsbEvent) :
    (acceptedPresses es).Sublist (offeredPresses es) := by
  induction es with
  | nil => exact .slnil
  | cons e es ih =>
      simp only [acceptedPresses, offeredPresses] at ih ⊢
      rcases e.press_cases with ⟨hp, ha, -⟩ | ⟨r, -, -, hp, ha⟩ | ⟨r, -, -, hp, ha⟩
      · simpa [hp, ha] using ih
      · simpa [hp, ha] using ih
      · simpa [hp, ha] using ih.cons r

/-- The accepted presses are the offered ones exactly when no press was
refused. -/
theorem acceptedPresses_eq_iff (es : List UsbEvent) :
    acceptedPresses es = offeredPresses es
      ↔ ∀ r, r ≠ released → .report r false ∉ es := by
  induction es with
  | nil => simp [acceptedPresses, offeredPresses]
  | cons e es ih =>
      have hsub := (acceptedPresses_sublist es).length_le
      simp only [acceptedPresses, offeredPresses] at ih hsub ⊢
      rcases e.press_cases with ⟨hp, ha, hne⟩ | ⟨r, hr, rfl, hp, ha⟩ | ⟨r, hr, rfl, hp, ha⟩
      · simp only [List.filterMap_cons, hp, ha, ih, List.mem_cons, not_or]
        exact forall_congr' fun r => imp_congr_right fun hr =>
          (and_iff_right (Ne.symm (hne r hr))).symm
      · simpa [hp, ha] using ih
      · -- the refused press is owed and never accepted: one list is longer
        refine iff_of_false (fun heq => ?_) fun h => h r hr List.mem_cons_self
        have hlen := congrArg List.length heq
        simp only [List.filterMap_cons, hp, ha, List.length_cons] at hlen
        omega

-- ====================================================== the simulation

/-- The delivery a slot of the core stands for. -/
def slotDelivery : Slot StagedJob BridgeStroke → Delivery
  | .idle => .idle
  | .offered j => .offered j
  | .open _ left => .typing left

/-- A core and the delivery of its slot. -/
def CoreDelivers (core : BridgeCore) (d : Delivery) : Prop :=
  core.typable ∧ ∃ a, Refines core a ∧ d = slotDelivery a.2

/-- The keyboard side and a delivery: in the press phase the stroke in
hand comes on top of the core's slot. -/
def Delivers (m : UsbMain) (d : Delivery) : Prop :=
  match m.pc with
  | .press stroke =>
      stroke.typable ∧ ∃ left, CoreDelivers m.core (.typing left) ∧ d = .pressing stroke left
  | _ => CoreDelivers m.core d

theorem delivers_init : Delivers usbMainInit .idle :=
  ⟨fun s h => (by cases h), _, refines_init, rfl⟩

/-- Outside the press phase only the core counts. -/
theorem delivers_iff {m : UsbMain} {d : Delivery} (h : ∀ s, m.pc ≠ .press s) :
    Delivers m d ↔ CoreDelivers m.core d := by
  unfold Delivers
  split
  next s hpc => exact absurd hpc (h s)
  next => exact Iff.rfl

/-- The slot's own transitions, as deliveries. -/
theorem delivery_of_slot {u u' : List (UInt32 × UInt32)}
    {s s' : Slot StagedJob BridgeStroke} {l : CoreLabel}
    (h : Lib.OneShot.Step jobReading (u, s) l (u', s')) (hl : ∀ x, l ≠ .take x) :
    Delivery.Step (slotDelivery s) (.core l) (slotDelivery s') := by
  cases h with
  | offer => exact .offer
  | approve => exact .approve
  | take => exact absurd rfl (hl _)
  | drop => exact .drop

theorem delivery_of_slot_trace {a b : List (UInt32 × UInt32) × Slot StagedJob BridgeStroke}
    {ls : List CoreLabel} (h : Trace (Lib.OneShot.Step jobReading) a ls b)
    (hl : ∀ x, .take x ∉ ls) :
    Trace Delivery.Step (slotDelivery a.2) (ls.map .core) (slotDelivery b.2) := by
  induction h with
  | nil => exact .nil _
  | cons hs _ ih =>
      refine .cons (delivery_of_slot hs fun x hx => hl x (by simp [hx])) ?_
      exact ih fun x hx => hl x (List.mem_cons_of_mem _ hx)

/-- A call that hands out no stroke. -/
def CoreCall.handsOut : CoreCall → Bool
  | .next .. => true
  | _ => false

theorem coreLabels_take {call : CoreCall} {reply : CoreReply} {core : BridgeCore}
    (h : call.handsOut = false) (x : BridgeStroke) : .take x ∉ coreLabels call reply core := by
  obtain ⟨st, s⟩ := reply
  rcases st with _ | st
  · cases call <;> simp [coreLabels]
  · cases call <;> cases st <;> simp_all [coreLabels, CoreCall.handsOut]

theorem coreTrace_take {calls : List CoreCall} (h : ∀ c ∈ calls, c.handsOut = false)
    (x : BridgeStroke) :
    ∀ core, .take x ∉ coreMachine.trace core (calls.map (false, ·)) := by
  induction calls with
  | nil => simp
  | cons c calls ih =>
      intro core hmem
      simp only [List.map_cons, Machine.trace_cons, List.mem_append] at hmem
      rcases hmem with hmem | hmem
      · exact coreLabels_take (h c List.mem_cons_self) x hmem
      · exact ih (fun c hc => h c (List.mem_cons_of_mem _ hc)) _ hmem

theorem coreStep_typable (core : BridgeCore) (c : Bool × CoreCall) (h : core.typable) :
    (coreMachine.step core c).1.typable := by
  obtain ⟨coreNull, call⟩ := c
  cases coreNull with
  | true => exact h
  | false => exact coreOp_typable h call

/-- Calls that hand out no stroke move the delivery as the slot moves. -/
theorem delivers_callCore {m : UsbMain} {d : Delivery} (hd : CoreDelivers m.core d)
    {calls : List CoreCall} (hcalls : ∀ c ∈ calls, c.handsOut = false) :
    ∃ d', Trace Delivery.Step d (m.callCore calls).2 d'
      ∧ CoreDelivers (m.callCore calls).1.core d' := by
  obtain ⟨ht, a, ha, rfl⟩ := hd
  obtain ⟨b, htr, hb⟩ := coreMachine.trace_of_sim refines_step (calls.map (false, ·)) _ _ ha
  refine ⟨_, delivery_of_slot_trace htr fun x => coreTrace_take hcalls x _, ?_, b, hb, rfl⟩
  exact coreMachine.final_inv coreStep_typable ht _

theorem delivers_tickAndPoll {m : UsbMain} {d : Delivery} (hd : CoreDelivers m.core d) :
    ∃ d', Trace Delivery.Step d (tickAndPoll m).2 d' ∧ Delivers (tickAndPoll m).1 d' := by
  have hcalls : ∀ c ∈ [CoreCall.tick m.usbNowMs], c.handsOut = false := by
    simp [CoreCall.handsOut]
  obtain ⟨d', htr, hd'⟩ := delivers_callCore hd hcalls
  exact ⟨d', htr, (delivers_iff (by simp [tickAndPoll])).mpr hd'⟩

theorem delivers_drainReturn {m : UsbMain} {d : Delivery} (hd : CoreDelivers m.core d) :
    ∃ d', Trace Delivery.Step d (drainReturn m).2 d' ∧ Delivers (drainReturn m).1 d' :=
  delivers_tickAndPoll hd

/-- The callbacks of `tud_task` only abort. -/
theorem delivers_tudTask {m : UsbMain} {d : Delivery} (hd : CoreDelivers m.core d)
    (cbs : List UsbCallback) :
    ∃ d', Trace Delivery.Step d (tudTask m cbs).2 d'
      ∧ CoreDelivers (tudTask m cbs).1.core d' := by
  refine delivers_callCore hd fun c hc => ?_
  obtain ⟨cb, -, hcb⟩ := List.mem_flatMap.mp hc
  cases cb <;> simp_all [UsbCallback.coreCalls, CoreCall.handsOut]

/-- The transports hand out no stroke. -/
theorem transportCalls_handsOut (nowMs : UInt32) (calls : List TransportCall) :
    ∀ c ∈ calls.map (TransportCall.coreCall nowMs), c.handsOut = false := by
  intro c hc
  obtain ⟨t, -, rfl⟩ := List.mem_map.mp hc
  cases t <;> rfl

/-- A terminated core delivers nothing. -/
theorem coreDelivers_terminate (core : BridgeCore) {st : BridgeState}
    (hst : st ≠ .staged ∧ st ≠ .executing) : CoreDelivers (terminate core st) .idle :=
  ⟨terminate_typable core st, _, refines_terminate core hst, rfl⟩

theorem delivers_mainLoop {m : UsbMain} {d : Delivery} (hd : CoreDelivers m.core d)
    (nowMs : UInt32) :
    ∃ d', Trace Delivery.Step d (mainLoop m nowMs).2 d' ∧ Delivers (mainLoop m nowMs).1 d' := by
  rcases mainLoop_cases m nowMs with ⟨-, h⟩ | ⟨-, h⟩ | h
  · rw [h]
    have hcore : CoreDelivers (terminate m.core .cancelled) .idle :=
      coreDelivers_terminate m.core (by decide)
    obtain ⟨d', htr, hd'⟩ := delivers_drainReturn
      (m := { (UsbMain.callCore { m with usbNowMs := nowMs, bleNowMs := nowMs } [.abort]).1 with
        execSinceMs := 0 }) hcore
    exact ⟨d', .cons .drop (.cons .stallAbort htr), hd'⟩
  · rw [h]
    exact ⟨d, .nil _, (delivers_iff (by simp)).mpr hd⟩
  · rw [h]
    exact delivers_tickAndPoll (m := { m with usbNowMs := nowMs, bleNowMs := nowMs }) hd

/-- An executing core's slot is open with the strokes from the cursor on. -/
theorem coreDelivers_executing {core : BridgeCore} {d : Delivery} (hd : CoreDelivers core d)
    (hx : core.state = .executing) :
    d = .typing core.remaining ∧ core.cursor ≤ core.strokeCount := by
  obtain ⟨-, ⟨used, slot⟩, ⟨-, hslot⟩, rfl⟩ := hd
  rcases hslot with ⟨h, -⟩ | ⟨-, hle, j, rfl⟩ | ⟨h, -⟩
  · rw [hx] at h
    cases h
  · exact ⟨rfl, hle⟩
  · exact absurd (.inr hx) h

theorem delivers_drainNext {m : UsbMain} {d : Delivery} (hd : CoreDelivers m.core d) :
    ∃ d', Trace Delivery.Step d (drainNext m).2 d' ∧ Delivers (drainNext m).1 d' := by
  rcases drainNext_cases m with ⟨-, h⟩ | ⟨-, h⟩ | ⟨hx, hc, h⟩ | ⟨hx, hc, h⟩
  · rw [h]
    obtain ⟨d', htr, hd'⟩ := delivers_drainReturn (m := m.drop .expired)
      (coreDelivers_terminate m.core (by decide))
    exact ⟨d', .cons .drop htr, hd'⟩
  · rw [h]
    exact delivers_drainReturn hd
  · rw [h]
    obtain ⟨rfl, -⟩ := coreDelivers_executing hd hx
    obtain ⟨d', htr, hd'⟩ := delivers_drainReturn (m := m.drop .completed)
      (coreDelivers_terminate m.core (by decide))
    have hnil : m.core.remaining = [] := by simp [BridgeCore.remaining, hc]
    rw [hnil]
    exact ⟨d', .cons .completed (.cons .drop htr), hd'⟩
  · rw [h]
    obtain ⟨rfl, hle⟩ := coreDelivers_executing hd hx
    have hlt : m.core.cursor < m.core.strokeCount := by omega
    have hrem := remaining_advance hlt
    have htyp := hd.1
    simp only [BridgeCore.typable, hrem, List.mem_cons, forall_eq_or_imp] at htyp
    obtain ⟨-, ⟨used, slot⟩, ha, hslot⟩ := hd
    obtain ⟨b, -, hb⟩ := refines_take ha hx hc
    rw [hrem]
    refine ⟨_, .cons .take (.nil _), ?_⟩
    have hpress : (m.core.strokes m.core.cursor).usage ≠ 0 := htyp.1
    simp only [hpress, if_true, ne_eq, not_false_eq_true]
    have hadv : m.core.advance.state = .executing := hx
    exact ⟨htyp.1, _, ⟨htyp.2, b, hb, ((coreDelivers_executing ⟨htyp.2, b, hb, rfl⟩ hadv).1).symm⟩,
      rfl⟩

/-- The simulation step: every transition of the keyboard side is
matched by what its events say of the delivery. -/
theorem delivers_step (m : UsbMain) (d : Delivery) (i : UsbInput) (hd : Delivers m d) :
    ∃ d', Trace Delivery.Step d (usbMachine.step m i).2 d'
      ∧ Delivers (usbMachine.step m i).1 d' := by
  generalize hr : usbMachine.step m i = r
  have hcase := usbStep_cases m i
  rw [show usbStep m i = r from hr] at hcase
  cases hcase with
  | skip => exact ⟨d, .nil _, hd⟩
  | top hpc =>
      rw [delivers_iff (by simp [hpc])] at hd
      obtain ⟨d', htr, hd'⟩ := delivers_tudTask hd _
      obtain ⟨d'', htr', hd''⟩ := delivers_mainLoop hd' _
      exact ⟨d'', htr.append htr', hd''⟩
  | next hpc =>
      rw [delivers_iff (by simp [hpc])] at hd
      exact delivers_drainNext hd
  | busy hpc =>
      rw [delivers_iff (by simp [hpc])] at hd
      exact delivers_drainReturn hd
  | pressed hpc =>
      simp only [Delivers, hpc] at hd
      obtain ⟨hs, left, hcore, rfl⟩ := hd
      exact ⟨_, .cons (.press hs) (.nil _), (delivers_iff (by simp)).mpr hcore⟩
  | refused hpc =>
      simp only [Delivers, hpc] at hd
      obtain ⟨hs, left, hcore, rfl⟩ := hd
      obtain ⟨d', htr, hd'⟩ := delivers_drainReturn hcore
      exact ⟨d', .cons (.press hs) htr, hd'⟩
  | waited hpc =>
      rw [delivers_iff (by simp [hpc])] at hd
      refine ⟨d, .nil _, (delivers_iff fun s => ?_).mpr hd⟩
      dsimp only
      split <;> simp
  | task hpc =>
      rw [delivers_iff (by simp [hpc])] at hd
      obtain ⟨d', htr, hd'⟩ := delivers_tudTask hd _
      exact ⟨d', htr, (delivers_iff (by simp)).mpr hd'⟩
  | free hpc =>
      rw [delivers_iff (by simp [hpc])] at hd
      exact ⟨d, .nil _, (delivers_iff (by simp)).mpr hd⟩
  | gaveUp hpc =>
      rw [delivers_iff (by simp [hpc])] at hd
      exact delivers_drainReturn hd
  | released hpc =>
      rw [delivers_iff (by simp [hpc])] at hd
      exact ⟨d, .cons .release (.nil _), (delivers_iff (by simp)).mpr hd⟩
  | unreleased hpc =>
      rw [delivers_iff (by simp [hpc])] at hd
      obtain ⟨d', htr, hd'⟩ := delivers_drainReturn hd
      exact ⟨d', .cons .release htr, hd'⟩
  | polled hpc =>
      rw [delivers_iff (by simp [hpc])] at hd
      obtain ⟨d', htr, hd'⟩ := delivers_callCore hd (transportCalls_handsOut m.bleNowMs _)
      exact ⟨d', htr, (delivers_iff (by simp)).mpr hd'⟩

-- ============================================================== the runs

/-- Every run of the keyboard side is a run of deliveries. -/
theorem usbRun_trace (is : List UsbInput) :
    ∃ d, Trace Delivery.Step .idle (usbMachine.trace usbMainInit is) d :=
  let ⟨d, h, _⟩ := usbMachine.trace_of_sim delivers_step is _ _ delivers_init
  ⟨d, h⟩

/-- Over every run of the main loop: a staged job that completes has had
each of its strokes offered to the endpoint once and in order, so the
presses the endpoint accepted are the staged strokes if and only if it
refused none of them. -/
theorem usbRun_delivers_iff (is : List UsbInput) (j : StagedJob)
    (before during after : List UsbEvent)
    (hsplit : usbMachine.trace usbMainInit is
      = before ++ .core (.offer j) :: during ++ .completed :: after)
    (hlast : ∀ j', .core (.offer j') ∉ during) :
    acceptedPresses during = j.strokes.map BridgeStroke.press
      ↔ ∀ r, r ≠ released → .report r false ∉ during := by
  obtain ⟨d, htr⟩ := usbRun_trace is
  rw [hsplit, List.append_assoc] at htr
  obtain ⟨d₁, -, htr⟩ := htr.split
  cases htr with
  | cons hoffer htr =>
      cases hoffer
      obtain ⟨d₂, hduring, hdone⟩ := htr.split
      cases hdone with
      | cons hcompleted _ =>
          cases hcompleted
          obtain ⟨left, howed, hoffered⟩ := offeredPresses_of_trace hduring rfl hlast
          cases howed
          rw [← hoffered, List.map_nil, List.append_nil]
          exact acceptedPresses_eq_iff during

/-- The job "ab" on an endpoint that completes its transfers. -/
def deliveredRun : List UsbInput :=
  [.tudTask [.mount] 1000, .ready true,
    .asyncPoll [.stage 7 1 bridgeLayoutUs bridgeModePassword 0 [0x61, 0x62] 2, .confirm 7 1],
    .tudTask [] 1010, .ready true, .report true,
    .ready false, .tudTask [] 1018, .ready true, .ready true, .report true, .ready false,
    .asyncPoll [],
    .tudTask [] 1026, .ready true, .report true,
    .ready false, .tudTask [] 1034, .ready true, .ready true, .report true, .ready false,
    .asyncPoll [], .tudTask [] 1042, .ready true]

/-- Its events between the staging and the end of the job. -/
def deliveredDuring : List UsbEvent :=
  [.core (.approve (7, 1) 1000), .core (.take ⟨0, 4⟩),
    .report (⟨0, 4⟩ : BridgeStroke).press true, .report released true,
    .core (.take ⟨0, 5⟩), .report (⟨0, 5⟩ : BridgeStroke).press true, .report released true]

theorem deliveredRun_delivers :
    acceptedPresses deliveredDuring = [⟨0, 4⟩, ⟨0, 5⟩].map BridgeStroke.press :=
  (usbRun_delivers_iff deliveredRun ⟨7, 1, 1000, bridgeTtlMs, [⟨0, 4⟩, ⟨0, 5⟩]⟩ []
    deliveredDuring [.core .drop] (by decide +kernel) (by simp [deliveredDuring])).mpr
    (by simp [deliveredDuring])

-- =========================================================== a lost key

/-- The job "ab" on an endpoint that refuses its first press report. -/
def refusedRun : List UsbInput :=
  [.tudTask [.mount] 1000, .ready true,
    .asyncPoll [.stage 7 1 bridgeLayoutUs bridgeModePassword 0 [0x61, 0x62] 2, .confirm 7 1],
    .tudTask [] 1010, .ready true, .report false, .asyncPoll [],
    .tudTask [] 1018, .ready true, .report true,
    .ready false, .tudTask [] 1026, .ready true, .ready true, .report true, .ready false,
    .asyncPoll [], .tudTask [] 1034, .ready true]

/-- Nothing is cancelled, the job of two strokes completes, and only its
second key was ever pressed. -/
theorem refusedRun_loses_key :
    endpointCan refusedRun ∧ (∀ i ∈ refusedRun, i.mounted)
      ∧ usbMachine.trace usbMainInit refusedRun
        = [.core (.offer ⟨7, 1, 1000, bridgeTtlMs, [⟨0, 4⟩, ⟨0, 5⟩]⟩),
            .core (.approve (7, 1) 1000), .core (.take ⟨0, 4⟩),
            .report (⟨0, 4⟩ : BridgeStroke).press false, .core (.take ⟨0, 5⟩),
            .report (⟨0, 5⟩ : BridgeStroke).press true, .report released true,
            .completed, .core .drop]
      ∧ (usbMachine.final usbMainInit refusedRun).core.state = .completed
      ∧ acceptedPresses (usbMachine.trace usbMainInit refusedRun)
        ≠ [⟨0, 4⟩, ⟨0, 5⟩].map BridgeStroke.press := by
  refine ⟨by decide +kernel, by decide +kernel, by decide +kernel, by decide +kernel, ?_⟩
  decide +kernel

end PicoBridge
