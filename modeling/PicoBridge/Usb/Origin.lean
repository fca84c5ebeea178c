/-
Where a keystroke comes from: the history of the keyboard side, read
backwards from a press report.

# The two readings

The same events are read twice. Their core labels (`UsbEvent.label?`) are
a run of core calls, hence a trace of the one-shot slot, which knows the
job's key and the time of its approval; the events themselves are a trace
of deliveries, which knows what was offered to the endpoint. `Agrees`
ties the two states along one run.

# What is read

A delivery with strokes still owed, or one in hand, has behind it the
offer of one job, its approval, and from there on nothing but strokes of
that job: the presses so far and what is still owed are its stroke list
(`job_history`).
-/
import PicoBridge.Usb.Delivery

namespace PicoBridge

open Lib (Machine Trace)
open Lib.OneShot (Slot)

-- ======================================================= the core's share

/-- What an event says of the core. -/
def UsbEvent.label? : UsbEvent → Option CoreLabel
  | .core l => some l
  | _ => none

/-- What the events say of the core. -/
def coreLabelsOf (es : List UsbEvent) : List CoreLabel := es.filterMap UsbEvent.label?

@[simp] theorem coreLabelsOf_append (es fs : List UsbEvent) :
    coreLabelsOf (es ++ fs) = coreLabelsOf es ++ coreLabelsOf fs := List.filterMap_append

@[simp] theorem coreLabelsOf_core (ls : List CoreLabel) : coreLabelsOf (ls.map .core) = ls := by
  induction ls with
  | nil => rfl
  | cons l ls ih => exact congrArg (l :: ·) ih

/-- The calls of the core that the keyboard side makes itself. -/
def CoreCall.keyboards : CoreCall → Prop
  | .next .. | .tick _ | .abort => True
  | _ => False

/-- Events of the keyboard side that are those of core calls, each of a
kind. -/
def Drives (kind : CoreCall → Prop) (core : BridgeCore) (es : List UsbEvent)
    (core' : BridgeCore) : Prop :=
  ∃ calls : List CoreCall, (∀ c ∈ calls, kind c) ∧
    coreMachine.final core (calls.map (false, ·)) = core' ∧
    coreMachine.trace core (calls.map (false, ·)) = coreLabelsOf es

variable {kind : CoreCall → Prop} {core core₁ core₂ : BridgeCore} {es fs : List UsbEvent}

theorem Drives.quiet (h : coreLabelsOf es = []) : Drives kind core es core :=
  ⟨[], fun _ hc => absurd hc List.not_mem_nil, rfl, h.symm⟩

theorem Drives.append (h : Drives kind core es core₁) (h' : Drives kind core₁ fs core₂) :
    Drives kind core (es ++ fs) core₂ := by
  obtain ⟨calls, hkind, hfinal, htrace⟩ := h
  obtain ⟨calls', hkind', hfinal', htrace'⟩ := h'
  refine ⟨calls ++ calls', ?_, ?_, ?_⟩
  · intro c hc
    exact (List.mem_append.mp hc).elim (hkind c) (hkind' c)
  · rw [List.map_append, Machine.final_append, hfinal, hfinal']
  · rw [List.map_append, Machine.trace_append, hfinal, htrace, htrace', coreLabelsOf_append]

/-- An event beside the core. -/
theorem Drives.beside {e : UsbEvent} (h : Drives kind core es core₁) (he : e.label? = none) :
    Drives kind core (e :: es) core₁ := by
  have hquiet : Drives kind core [e] core := .quiet (by simp [coreLabelsOf, he])
  exact hquiet.append h

theorem drives_callCore (m : UsbMain) {calls : List CoreCall} (hkind : ∀ c ∈ calls, kind c) :
    Drives kind m.core (m.callCore calls).2 (m.callCore calls).1.core :=
  ⟨calls, hkind, rfl, (coreLabelsOf_core _).symm⟩

theorem drives_tudTask (m : UsbMain) (cbs : List UsbCallback) :
    Drives CoreCall.keyboards m.core (tudTask m cbs).2 (tudTask m cbs).1.core := by
  refine drives_callCore m fun c hc => ?_
  obtain ⟨cb, -, hcb⟩ := List.mem_flatMap.mp hc
  cases cb <;> simp_all [UsbCallback.coreCalls, CoreCall.keyboards]

theorem drives_drainReturn (m : UsbMain) :
    Drives CoreCall.keyboards m.core (drainReturn m).2 (drainReturn m).1.core := by
  refine drives_callCore (m := { m with lastUsbDrainMs := m.usbNowMs }) fun c hc => ?_
  rw [List.mem_singleton.mp hc]
  trivial

theorem drives_mainLoop (m : UsbMain) (nowMs : UInt32) :
    Drives CoreCall.keyboards m.core (mainLoop m nowMs).2 (mainLoop m nowMs).1.core := by
  rcases mainLoop_cases m nowMs with ⟨-, h⟩ | ⟨-, h⟩ | h
  · rw [h]
    have habort : Drives CoreCall.keyboards m.core _ _ :=
      @drives_callCore CoreCall.keyboards { m with usbNowMs := nowMs, bleNowMs := nowMs }
        [.abort] (by simp [CoreCall.keyboards])
    exact habort.append ((drives_drainReturn _).beside rfl)
  · rw [h]
    exact .quiet rfl
  · rw [h]
    refine drives_callCore (m := { m with usbNowMs := nowMs, bleNowMs := nowMs }) fun c hc => ?_
    rw [List.mem_singleton.mp hc]
    trivial

theorem drives_drainNext (m : UsbMain) :
    Drives CoreCall.keyboards m.core (drainNext m).2 (drainNext m).1.core := by
  unfold drainNext
  dsimp only
  generalize hr : bridgeCoreNext m.core m.usbNowMs = r
  have hnext : Drives CoreCall.keyboards m.core
      ((if r.1 = .done then [.completed] else []) ++
        (coreLabels (.next m.usbNowMs false) ⟨some r.1, r.2.1⟩ r.2.2).map .core) r.2.2 := by
    refine @Drives.append _ _ m.core _ _ _ (.quiet ?_)
      ⟨[.next m.usbNowMs false], by simp [CoreCall.keyboards], ?_, ?_⟩
    · split <;> rfl
    · rw [← hr]
      rfl
    · rw [coreLabelsOf_core, ← hr]
      exact List.append_nil _
  split
  · exact hnext.append (drives_drainReturn { m with core := r.2.2 })
  · exact hnext

/-- What a step of the keyboard side makes of the core, between two polls
of the transports. -/
theorem usbStep_drives (m : UsbMain) {i : UsbInput} (hi : ∀ calls, i ≠ .asyncPoll calls) :
    Drives CoreCall.keyboards m.core (usbStep m i).2 (usbStep m i).1.core := by
  generalize hr : usbStep m i = r
  have hcase := usbStep_cases m i
  rw [hr] at hcase
  cases hcase with
  | skip => exact .quiet rfl
  | top => exact (drives_tudTask m _).append (drives_mainLoop _ _)
  | next => exact drives_drainNext m
  | busy => exact drives_drainReturn m
  | pressed => exact .quiet rfl
  | refused => exact (drives_drainReturn m).beside rfl
  | waited => exact .quiet rfl
  | task => exact drives_tudTask m _
  | free => exact .quiet rfl
  | gaveUp => exact drives_drainReturn m
  | released => exact .quiet rfl
  | unreleased => exact (drives_drainReturn m).beside rfl
  | polled => exact absurd rfl (hi _)

-- ================================================ what only a command does

/-- Only a stage that succeeds offers a job. -/
theorem coreLabels_offer {call : CoreCall} {reply : CoreReply} {core : BridgeCore}
    {j : StagedJob} (h : .offer j ∈ coreLabels call reply core) :
    ∃ owner id layout mode flags utf8 length nowMs ttlMs,
      call = .stage owner id layout mode flags utf8 length nowMs ttlMs ∧
        reply.status = some .ok ∧ j = ⟨owner, id, nowMs, ttlMs, core.strokeList⟩ := by
  unfold coreLabels at h
  split at h
  next hok =>
    rw [List.mem_singleton] at h
    cases h
    exact ⟨_, _, _, _, _, _, _, _, _, rfl, hok, rfl⟩
  all_goals simp at h

/-- Only a confirm that succeeds approves one. -/
theorem coreLabels_approve {call : CoreCall} {reply : CoreReply} {core : BridgeCore}
    {key : UInt32 × UInt32} {nowMs : UInt32} (h : .approve key nowMs ∈ coreLabels call reply core) :
    call = .confirm key.1 key.2 nowMs := by
  unfold coreLabels at h
  split at h
  case h_2 =>
    rw [List.mem_singleton] at h
    cases h
    rfl
  all_goals simp at h

/-- The keyboard side opens and approves nothing. -/
theorem keyboards_labels {calls : List CoreCall} (hcalls : ∀ c ∈ calls, c.keyboards) :
    ∀ {core : BridgeCore} {l : CoreLabel},
      l ∈ coreMachine.trace core (calls.map (false, ·)) →
        (∀ j, l ≠ .offer j) ∧ ∀ key nowMs, l ≠ .approve key nowMs := by
  induction calls with
  | nil => exact fun h => absurd h List.not_mem_nil
  | cons call calls ih =>
      intro core l h
      rcases List.mem_append.mp h with hnow | hlater
      · have hown := hcalls call List.mem_cons_self
        constructor
        · rintro j rfl
          obtain ⟨_, _, _, _, _, _, _, _, _, rfl, -⟩ := coreLabels_offer hnow
          exact hown
        · rintro key nowMs rfl
          obtain rfl := coreLabels_approve hnow
          exact hown
      · exact ih (fun c hc => hcalls c (List.mem_cons_of_mem call hc)) hlater

/-- The keyboard side never stages: a core that it leaves staged is as it
was, and nothing has been seen of it. -/
theorem keyboards_staged {core : BridgeCore} {call : CoreCall} (hcall : call.keyboards)
    (h : (coreMachine.step core (false, call)).1.state = .staged) :
    coreMachine.step core (false, call) = (core, []) := by
  have hterminated : ∀ st : BridgeState, st ≠ .staged → (terminate core st).state ≠ .staged :=
    fun st hst => hst
  cases call with
  | next nowMs strokeNull =>
      cases strokeNull with
      | true => rfl
      | false =>
          simp only [coreMachine, coreCall, coreOp, Bool.false_eq_true, if_false] at h ⊢
          rcases bridgeCoreNext_cases core nowMs with
            ⟨-, -, hnext⟩ | ⟨-, -, hnext⟩ | ⟨-, -, hnext⟩ | ⟨hexecuting, -, hnext⟩
          · rw [hnext] at h
            exact absurd h (hterminated _ (by decide))
          · rw [hnext]
            rfl
          · rw [hnext] at h
            exact absurd h (hterminated _ (by decide))
          · rw [hnext] at h
            have hadvanced : core.advance.state = .staged := h
            have hstate : core.advance.state = core.state := rfl
            rw [hstate, hexecuting] at hadvanced
            cases hadvanced
  | tick nowMs =>
      simp only [coreMachine, coreCall, coreOp, Bool.false_eq_true, if_false] at h ⊢
      rcases bridgeCoreTick_cases core nowMs with ⟨-, -, htick⟩ | ⟨-, htick⟩
      · rw [htick] at h
        exact absurd h (hterminated _ (by decide))
      · rw [htick]
        rfl
  | abort => exact absurd h (hterminated _ (by decide))
  | _ => exact hcall.elim

theorem terminate_idle (core : BridgeCore) {st : BridgeState}
    (hst : st ≠ .staged ∧ st ≠ .executing) : ¬(terminate core st).live :=
  fun hlive => hlive.elim hst.1 hst.2

/-- What the keyboard side does with a core that types: it takes the next
stroke, ends the job, or finds nothing to do. -/
theorem keyboards_executing {call : CoreCall} (hcall : call.keyboards)
    (hexecuting : core.state = .executing) :
    coreMachine.step core (false, call) = (core, []) ∨
      (core.cursor ≠ core.strokeCount ∧
        coreMachine.step core (false, call)
          = (core.advance, [.take (core.strokes core.cursor)])) ∨
      ∃ core', coreMachine.step core (false, call) = (core', [.drop]) ∧ ¬core'.live ∧
        (call ≠ .abort → core.cursor = core.strokeCount) := by
  have hnot : core.state ≠ .staged := by
    rw [hexecuting]
    decide
  cases call with
  | next nowMs strokeNull =>
      cases strokeNull with
      | true => exact .inl rfl
      | false =>
          simp only [coreMachine, coreCall, coreOp, Bool.false_eq_true, if_false]
          rcases bridgeCoreNext_cases core nowMs with
            ⟨hstaged, -, -⟩ | ⟨hno, -, -⟩ | ⟨-, hend, hnext⟩ | ⟨-, hmore, hnext⟩
          · exact absurd hstaged hnot
          · exact absurd hexecuting hno
          · rw [hnext]
            exact .inr (.inr ⟨_, rfl, terminate_idle core (by decide), fun _ => hend⟩)
          · rw [hnext]
            exact .inr (.inl ⟨hmore, rfl⟩)
  | tick nowMs =>
      simp only [coreMachine, coreCall, coreOp, Bool.false_eq_true, if_false]
      rcases bridgeCoreTick_cases core nowMs with ⟨hstaged, -, -⟩ | ⟨-, htick⟩
      · exact absurd hstaged hnot
      · rw [htick]
        exact .inl rfl
  | abort =>
      exact .inr (.inr ⟨_, rfl, terminate_idle core (by decide), fun hno => absurd rfl hno⟩)
  | _ => exact hcall.elim

/-- And with one that holds no job. -/
theorem keyboards_idle {call : CoreCall} (hcall : call.keyboards) (hidle : ¬core.live) :
    coreMachine.step core (false, call) = (core, []) ∨
      ∃ core', coreMachine.step core (false, call) = (core', [.drop]) ∧ ¬core'.live ∧
        call = .abort := by
  cases call with
  | next nowMs strokeNull =>
      cases strokeNull with
      | true => exact .inl rfl
      | false =>
          simp only [coreMachine, coreCall, coreOp, Bool.false_eq_true, if_false]
          rcases bridgeCoreNext_cases core nowMs with
            ⟨hstaged, -, -⟩ | ⟨-, -, hnext⟩ | ⟨hexecuting, -, -⟩ | ⟨hexecuting, -, -⟩
          · exact absurd (.inl hstaged) hidle
          · rw [hnext]
            exact .inl rfl
          · exact absurd (.inr hexecuting) hidle
          · exact absurd (.inr hexecuting) hidle
  | tick nowMs =>
      simp only [coreMachine, coreCall, coreOp, Bool.false_eq_true, if_false]
      rcases bridgeCoreTick_cases core nowMs with ⟨hstaged, -, -⟩ | ⟨-, htick⟩
      · exact absurd (.inl hstaged) hidle
      · rw [htick]
        exact .inl rfl
  | abort => exact .inr ⟨_, rfl, terminate_idle core (by decide), rfl⟩
  | _ => exact hcall.elim

/-- Of the calls of a step, all of the keyboard side's own. -/
theorem Drives.still (h : Drives CoreCall.keyboards core es core₁)
    (hstaged : core₁.state = .staged) : core₁ = core ∧ coreLabelsOf es = [] := by
  obtain ⟨calls, hcalls, rfl, htrace⟩ := h
  rw [← htrace]
  clear htrace
  induction calls generalizing core with
  | nil => exact ⟨rfl, rfl⟩
  | cons call calls ih =>
      obtain ⟨hfinal, htrace⟩ := ih (fun c hc => hcalls c (List.mem_cons_of_mem call hc)) hstaged
      have hnow : coreMachine.step core (false, call) = (core, []) := by
        apply keyboards_staged (hcalls call List.mem_cons_self)
        rw [← hfinal]
        exact hstaged
      rw [hnow] at hfinal htrace
      rw [List.map_cons, Machine.final_cons, Machine.trace_cons, hnow]
      exact ⟨hfinal, htrace⟩

/-- What they are seen to do is neither an offer nor an approval. -/
theorem Drives.labels (h : Drives CoreCall.keyboards core es core₁) {l : CoreLabel}
    (hl : l ∈ coreLabelsOf es) :
    (∀ j, l ≠ .offer j) ∧ ∀ key nowMs, l ≠ .approve key nowMs := by
  obtain ⟨calls, hcalls, -, htrace⟩ := h
  rw [← htrace] at hl
  exact keyboards_labels hcalls hl

-- ================================================================= the runs

/-- A poll that nothing asked for. -/
theorem usbStep_skip {m : UsbMain} (hpc : m.pc ≠ .poll) (calls : List TransportCall) :
    usbStep m (.asyncPoll calls) = (m, []) := by
  generalize hr : usbStep m (.asyncPoll calls) = r
  have hcase := usbStep_cases m (.asyncPoll calls)
  rw [hr] at hcase
  cases hcase with
  | skip => rfl
  | polled h => exact absurd h hpc

/-- Every step, the poll of the transports included. -/
theorem usbStep_calls (m : UsbMain) (i : UsbInput) :
    Drives (fun _ => True) m.core (usbStep m i).2 (usbStep m i).1.core := by
  by_cases hi : ∃ calls, i = .asyncPoll calls
  · obtain ⟨calls, rfl⟩ := hi
    generalize hr : usbStep m (.asyncPoll calls) = r
    have hcase := usbStep_cases m (.asyncPoll calls)
    rw [hr] at hcase
    cases hcase with
    | skip => exact .quiet rfl
    | polled => exact drives_callCore m fun _ _ => trivial
  · obtain ⟨calls, -, hfinal, htrace⟩ := usbStep_drives m fun calls heq => hi ⟨calls, heq⟩
    exact ⟨calls, fun _ _ => trivial, hfinal, htrace⟩

/-- The core's share of a run is a run of the one-shot slot. -/
theorem usbRun_slot (is : List UsbInput) :
    ∃ b, Trace (Lib.OneShot.Step jobReading) ([], .idle)
        (coreLabelsOf (usbMachine.trace usbMainInit is)) b ∧
      Refines (usbMachine.final usbMainInit is).core b := by
  obtain ⟨calls, hfinal, htrace⟩ := usbMachine.projects coreMachine (f := UsbMain.core)
    (g := UsbEvent.label?) (fun m i => by
      obtain ⟨calls, -, hfinal, htrace⟩ := usbStep_calls m i
      exact ⟨_, hfinal, htrace⟩) is usbMainInit
  obtain ⟨b, hb, hrefines⟩ := coreMachine.trace_of_sim refines_step calls _ _ refines_init
  have hlabels : coreMachine.trace bridgeCoreInit calls
      = coreLabelsOf (usbMachine.trace usbMainInit is) := htrace
  have hcore : coreMachine.final bridgeCoreInit calls
      = (usbMachine.final usbMainInit is).core := hfinal
  rw [hlabels] at hb
  rw [hcore] at hrefines
  exact ⟨b, hb, hrefines⟩

-- ==================================================== the readings agree

/-- A delivery and the slot of the same run. A completed job is idle for
the endpoint one event before the core drops it. -/
def Agrees : Delivery → Slot StagedJob BridgeStroke → Prop
  | .idle, s => s = .idle ∨ ∃ j, s = .open j []
  | .offered j, s => s = .offered j
  | .typing left, s => ∃ j, s = .open j left
  | .pressing _ left, s => ∃ j, s = .open j left

/-- The stroke a delivery has in hand. -/
def Delivery.hand : Delivery → List BridgeStroke
  | .pressing stroke _ => [stroke]
  | _ => []

/-- The strokes still to be handed out. -/
def Delivery.left : Delivery → List BridgeStroke
  | .typing left | .pressing _ left => left
  | _ => []

/-- A delivery that is being typed. -/
def Delivery.underway : Delivery → Prop
  | .typing _ | .pressing _ _ => True
  | _ => False

theorem agrees_step {d e : Delivery} {ev : UsbEvent} {a b : List (UInt32 × UInt32) × Slot _ _}
    (hd : Delivery.Step d ev e)
    (hs : Trace (Lib.OneShot.Step jobReading) a (coreLabelsOf [ev]) b) (h : Agrees d a.2) :
    Agrees e b.2 := by
  -- an event of the core is one step of the slot, any other none
  have hstep : ∀ l, ev = .core l → Lib.OneShot.Step jobReading a l b := by
    rintro l rfl
    cases hs with
    | cons hs hnil =>
        cases hnil
        exact hs
  have hstay : ev.label? = none → b = a := by
    intro hnone
    have hnil : coreLabelsOf [ev] = [] := by simp [coreLabelsOf, hnone]
    rw [hnil] at hs
    cases hs
    rfl
  cases hd with
  | offer =>
      cases hstep _ rfl
      rfl
  | approve =>
      cases hstep _ rfl with
      | approve =>
          cases h
          exact ⟨_, rfl⟩
  | take =>
      cases hstep _ rfl with
      | take =>
          obtain ⟨j, hj⟩ := h
          cases hj
          exact ⟨_, rfl⟩
  | press =>
      rw [hstay rfl]
      exact h
  | release =>
      rw [hstay rfl]
      exact h
  | completed =>
      rw [hstay rfl]
      exact .inr h
  | drop =>
      cases hstep _ rfl
      exact .inl rfl
  | stallAbort =>
      rw [hstay rfl]
      exact h

/-- The two readings of the same events. -/
theorem agrees_run {d e : Delivery} {es : List UsbEvent} (hd : Trace Delivery.Step d es e) :
    ∀ {a b : List (UInt32 × UInt32) × Slot StagedJob BridgeStroke},
      Trace (Lib.OneShot.Step jobReading) a (coreLabelsOf es) b → Agrees d a.2 →
        Agrees e b.2 := by
  induction hd with
  | nil =>
      intro a b hs h
      cases hs
      exact h
  | @cons _ _ _ ev es hstep _ ih =>
      intro a b hs h
      have hsplit : coreLabelsOf (ev :: es) = coreLabelsOf [ev] ++ coreLabelsOf es :=
        coreLabelsOf_append [ev] es
      rw [hsplit] at hs
      obtain ⟨c, hone, hrest⟩ := hs.split
      exact ih hrest (agrees_step hstep hone h)

-- ======================================================= the presses made

/-- The strokes that the events take from the core. -/
def takenOf (es : List UsbEvent) : List BridgeStroke := Lib.OneShot.takes (coreLabelsOf es)

/-- While no job is dropped, the strokes taken are those offered to the
endpoint and the one in hand. -/
theorem offered_taken {d e : Delivery} {es : List UsbEvent} (h : Trace Delivery.Step d es e)
    (hkeep : .core .drop ∉ es) :
    (d.hand ++ takenOf es).map BridgeStroke.press
      = offeredPresses es ++ e.hand.map BridgeStroke.press := by
  induction h with
  | nil => simp [takenOf, coreLabelsOf, offeredPresses]
  | cons hstep _ ih =>
      have ih := ih fun hmem => hkeep (List.mem_cons_of_mem _ hmem)
      cases hstep with
      | offer => exact ih
      | approve => exact ih
      | take => exact ih
      | @press stroke left accepted ht =>
          have hpress : offeredPresses (.report stroke.press accepted :: ‹List UsbEvent›)
              = stroke.press :: offeredPresses ‹List UsbEvent› := by
            simp [offeredPresses, UsbEvent.press?, press_ne_released ht]
          rw [hpress]
          exact congrArg (stroke.press :: ·) ih
      | release => exact ih
      | completed => exact ih
      | drop => exact absurd List.mem_cons_self hkeep
      | stallAbort => exact ih

-- ========================================================== the histories

/-- An event of the core, found by its label. -/
theorem coreLabelsOf_split {es : List UsbEvent} {l : CoreLabel} {ls ms : List CoreLabel}
    (h : coreLabelsOf es = ls ++ l :: ms) :
    ∃ before after, es = before ++ .core l :: after ∧ coreLabelsOf before = ls ∧
      coreLabelsOf after = ms := by
  obtain ⟨before, rest, rfl, hbefore, hrest⟩ := List.filterMap_eq_append_iff.mp h
  obtain ⟨silent, e, after, rfl, hsilent, he, hafter⟩ := List.filterMap_eq_cons_iff.mp hrest
  have hcore : e = .core l := by
    cases e <;> simp_all [UsbEvent.label?]
  refine ⟨before ++ silent, after, by simp [hcore], ?_, hafter⟩
  have hnone : coreLabelsOf silent = [] := List.filterMap_eq_nil_iff.mpr hsilent
  rw [coreLabelsOf_append, hnone, List.append_nil]
  exact hbefore

/-- The history of a job that is being typed: `before`, its offer, its
approval in time, and `during`, which takes strokes only. -/
structure JobHistory (es : List UsbEvent) (j : StagedJob) (nowMs : UInt32)
    (before between during : List UsbEvent) : Prop where
  events : es = before ++ .core (.offer j) ::
    (between ++ .core (.approve (j.owner, j.id) nowMs) :: during)
  inTime : nowMs - j.stagedAtMs < j.ttlMs
  between : coreLabelsOf between = []
  during : ∃ taken : List BridgeStroke, coreLabelsOf during = taken.map .take

theorem takes_map (strokes : List BridgeStroke) :
    Lib.OneShot.takes (strokes.map .take : List CoreLabel) = strokes := by
  induction strokes with
  | nil => rfl
  | cons stroke strokes ih => exact congrArg (stroke :: ·) ih

/-- Behind a delivery underway there is one job: its strokes are the
presses offered since its approval and what is still owed. -/
theorem job_history {es : List UsbEvent} {d : Delivery}
    {b : List (UInt32 × UInt32) × Slot StagedJob BridgeStroke}
    (hd : Trace Delivery.Step .idle es d)
    (hs : Trace (Lib.OneShot.Step jobReading) ([], .idle) (coreLabelsOf es) b)
    (hunderway : d.underway) :
    ∃ j nowMs before between during, JobHistory es j nowMs before between during ∧
      j.strokes.map BridgeStroke.press
        = offeredPresses during ++ (d.hand ++ d.left).map BridgeStroke.press := by
  obtain ⟨j, hslot⟩ : ∃ j, b.2 = .open j d.left := by
    have hagree := agrees_run hd hs (.inl rfl)
    cases d with
    | typing left => exact hagree
    | pressing stroke left => exact hagree
    | idle => exact absurd hunderway id
    | offered j => exact absurd hunderway id
  obtain ⟨pre, nowMs, taken, hlabels, hin, hitems⟩ := Lib.OneShot.open_history hs rfl hslot
  obtain ⟨before, rest, rfl, -, hrest⟩ := coreLabelsOf_split hlabels
  obtain ⟨between, during, rfl, hbetween, hduring⟩ := @coreLabelsOf_split _ _ [] _ hrest
  refine ⟨j, nowMs, before, between, during, ⟨rfl, hin, hbetween, taken, hduring⟩, ?_⟩
  -- from the approval on, with nothing in hand
  obtain ⟨d₁, -, hd⟩ := hd.split
  cases hd with
  | cons _ hd =>
      obtain ⟨d₂, -, hd⟩ := hd.split
      cases hd with
      | cons happrove hd =>
          cases happrove with
          | approve =>
              have hkeep : .core .drop ∉ during := by
                intro hmem
                have hlabel : .drop ∈ coreLabelsOf during :=
                  List.mem_filterMap.mpr ⟨_, hmem, rfl⟩
                rw [hduring] at hlabel
                obtain ⟨stroke, -, heq⟩ := List.mem_map.mp hlabel
                cases heq
              have hoffered := offered_taken hd hkeep
              have htaken : takenOf during = taken := by
                unfold takenOf
                rw [hduring, takes_map]
              rw [htaken] at hoffered
              have hall : j.strokes = taken ++ d.left := hitems.symm
              rw [hall, List.map_append, List.map_append, ← List.append_assoc, ← hoffered]
              rfl

/-- While a job's history goes on, the core executes it. -/
theorem history_executing {is : List UsbInput} {j : StagedJob} {nowMs : UInt32}
    {before between during : List UsbEvent}
    (h : JobHistory (usbMachine.trace usbMainInit is) j nowMs before between during) :
    (usbMachine.final usbMainInit is).core.state = .executing := by
  obtain ⟨b, hs, -, hslot⟩ := usbRun_slot is
  obtain ⟨taken, htaken⟩ := h.during
  have hlabels : coreLabelsOf (usbMachine.trace usbMainInit is)
      = (coreLabelsOf before ++ [.offer j]) ++
        .approve (j.owner, j.id) nowMs :: taken.map .take := by
    rw [h.events, coreLabelsOf_append]
    show coreLabelsOf before ++ .offer j :: coreLabelsOf (between ++ _) = _
    rw [coreLabelsOf_append, h.between]
    show _ ++ .offer j :: ([] ++ .approve _ _ :: coreLabelsOf during) = _
    rw [htaken]
    simp
  rw [hlabels] at hs
  obtain ⟨c, -, hs⟩ := hs.split
  obtain ⟨k, left, hopen⟩ := Lib.OneShot.open_of_taken hs
  rcases hslot with ⟨-, -, hoffered⟩ | ⟨hstate, -⟩ | ⟨-, hidle⟩
  · cases hopen.symm.trans hoffered
  · exact hstate
  · cases hopen.symm.trans hidle

/-- The state before an event of a run, in both readings. -/
theorem usbRun_before {is : List UsbInput} {pre post : List UsbEvent} {e : UsbEvent}
    (hsplit : usbMachine.trace usbMainInit is = pre ++ e :: post) :
    ∃ d d' b, Trace Delivery.Step .idle pre d ∧ Delivery.Step d e d' ∧
      Trace (Lib.OneShot.Step jobReading) ([], .idle) (coreLabelsOf pre) b := by
  obtain ⟨d', hd⟩ := usbRun_trace is
  obtain ⟨b', hs, -⟩ := usbRun_slot is
  rw [hsplit] at hd hs
  rw [coreLabelsOf_append] at hs
  obtain ⟨d, hpre, hpost⟩ := hd.split
  obtain ⟨b, hslot, -⟩ := hs.split
  cases hpost with
  | cons hstep _ => exact ⟨d, _, b, hpre, hstep, hslot⟩

/-- The origin of a press: a job that was offered and approved in time,
all of whose earlier strokes have been offered since, and nothing else. -/
theorem press_origin {is : List UsbInput} {pre post : List UsbEvent} {e : UsbEvent}
    {r : HidReport} (hsplit : usbMachine.trace usbMainInit is = pre ++ e :: post)
    (hpress : e.press? = some r) :
    ∃ j nowMs before between during, JobHistory pre j nowMs before between during ∧
      ∃ rest, j.strokes.map BridgeStroke.press = offeredPresses during ++ r :: rest := by
  obtain ⟨d, d', b, hd, hstep, hs⟩ := usbRun_before hsplit
  cases hstep with
  | @press stroke left accepted ht =>
      obtain ⟨j, nowMs, before, between, during, hhistory, hstrokes⟩ := job_history hd hs trivial
      have hr : stroke.press = r := by
        simpa [UsbEvent.press?, press_ne_released ht] using hpress
      rw [← hr]
      exact ⟨j, nowMs, before, between, during, hhistory, left.map BridgeStroke.press, hstrokes⟩
  | offer => cases hpress
  | approve => cases hpress
  | take => cases hpress
  | release => simp [UsbEvent.press?] at hpress
  | completed => cases hpress
  | drop => cases hpress
  | stallAbort => cases hpress

/-- The origin of a completion: a job all of whose strokes have been
offered since its approval. -/
theorem completed_origin {is : List UsbInput} {pre post : List UsbEvent}
    (hsplit : usbMachine.trace usbMainInit is = pre ++ .completed :: post) :
    ∃ j nowMs before between during, JobHistory pre j nowMs before between during ∧
      j.strokes.map BridgeStroke.press = offeredPresses during := by
  obtain ⟨d, d', b, hd, hstep, hs⟩ := usbRun_before hsplit
  cases hstep
  obtain ⟨j, nowMs, before, between, during, hhistory, hstrokes⟩ := job_history hd hs trivial
  exact ⟨j, nowMs, before, between, during, hhistory, hstrokes.trans (List.append_nil _)⟩

end PicoBridge
