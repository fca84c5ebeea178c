/-
How old a job can be that is typed, in true time.

# The clocks

`bridge_core_tick` and `bridge_core_confirm` subtract two readings of a
32-bit clock, so what they know of a job's age is its age modulo 2^32.
Here a run of the loop has the true time beside it: `usbAt` and `bleAt`
are the times that `usb_now_ms` and `ble_now_ms` show. `ClockRuns` says
that the clock does not go back and that no pass of the loop begins
2^32 - 15000 ms after the last one did, or later.

# The invariant

A job that is STAGED is younger than its ttl wherever the loop asks the
transports, since the tick has come before. It is then less than a turn
of the clock old when the next pass begins, so the next tick reads its
age right. The drain does not wait while a job is STAGED, so between the
head of the pass and its tick no time passes (`Waits`).
-/
import PicoBridge.Lib.Clock
import PicoBridge.Usb.Origin

namespace PicoBridge

open Lib (Machine)
open Lib.Clock

-- ============================================================== the true time

/-- The loop, and the times that its two clocks show. -/
structure TimedMain where
  main : UsbMain
  usbAt : Nat
  bleAt : Nat

def timedMainInit : TimedMain := ⟨usbMainInit, 0, 0⟩

/-- The times of the clocks, after an answer that comes at a time. -/
def TimedMain.clocks (s : TimedMain) (i : UsbInput) (now : Nat) : Nat × Nat :=
  match s.main.pc, i with
  | .top, .tudTask _ _ => (now, now)
  | .task _, .tudTask _ _ => (now, s.bleAt)
  | _, _ => (s.usbAt, s.bleAt)

/-- The loop beside the true time: an event is seen with the time at which
its pass began. -/
def timedMachine : Machine TimedMain (UsbInput × Nat) (Nat × UsbEvent) where
  step s i :=
    let r := usbStep s.main i.1
    let t := s.clocks i.1 i.2
    (⟨r.1, t.1, t.2⟩, r.2.map (t.2, ·))

/-- `to_ms_since_boot` shows the time, which does not go back, and a pass
begins less than 2^32 - 15000 ms after the one before. -/
def ClockRuns (s : TimedMain) (i : UsbInput × Nat) : Prop :=
  match s.main.pc, i.1 with
  | .top, .tudTask _ nowMs =>
      nowMs = reading i.2 ∧ s.usbAt ≤ i.2 ∧ i.2 + bridgeTtlMs.toNat < s.bleAt + 2 ^ 32
  | .task _, .tudTask _ nowMs => nowMs = reading i.2 ∧ s.usbAt ≤ i.2
  | _, _ => True

instance (s : TimedMain) (i : UsbInput × Nat) : Decidable (ClockRuns s i) := by
  unfold ClockRuns
  split <;> infer_instance

/-- What is seen of the core, with the time. -/
def timedLabels (h : List (Nat × UsbEvent)) : List (Nat × CoreLabel) :=
  h.filterMap fun e => e.2.label?.map (e.1, ·)

theorem timedLabels_append (h h' : List (Nat × UsbEvent)) :
    timedLabels (h ++ h') = timedLabels h ++ timedLabels h' := List.filterMap_append

theorem timedLabels_at (t : Nat) (es : List UsbEvent) :
    timedLabels (es.map (t, ·)) = (coreLabelsOf es).map (t, ·) := by
  unfold timedLabels coreLabelsOf
  rw [List.filterMap_map, List.map_filterMap]
  rfl

-- ============================================================= the invariant

/-- The core's job was staged at a time, and nothing was seen of the core
since. -/
structure StagedAt (core : BridgeCore) (ls : List (Nat × CoreLabel)) (t : Nat) : Prop where
  last : ∃ pre, ls = pre ++ [(t, .offer core.job)]
  clock : core.stagedAtMs = reading t
  ttl : core.ttlMs = bridgeTtlMs

/-- Every approval follows the offer of its job, in less than the ttl. -/
def Prompt (ls : List (Nat × CoreLabel)) : Prop :=
  ∀ pre t key nowMs post, ls = pre ++ (t, .approve key nowMs) :: post →
    ∃ before j staged, pre = before ++ [(staged, .offer j)] ∧ staged ≤ t ∧
      t < staged + bridgeTtlMs.toNat

/-- Where a job can be STAGED, and how old it is there: only between two
drains, and there less than its ttl but for the head of a pass. -/
def Waits (s : TimedMain) (staged : Nat) : Prop :=
  match s.main.pc with
  | .top | .poll => s.bleAt < staged + bridgeTtlMs.toNat
  | .loop => s.usbAt = s.bleAt ∧ s.bleAt < staged + 2 ^ 32
  | _ => False

/-- A STAGED job was staged at a time of which this is so. -/
def Staged (core : BridgeCore) (ls : List (Nat × CoreLabel)) (age : Nat → Prop) : Prop :=
  core.state = .staged → ∃ t, StagedAt core ls t ∧ age t

/-- The invariant of the timed loop. -/
structure Timely (s : TimedMain) (ls : List (Nat × CoreLabel)) : Prop where
  usb : s.main.usbNowMs = reading s.usbAt
  ble : s.main.bleNowMs = reading s.bleAt
  order : s.bleAt ≤ s.usbAt
  prompt : Prompt ls
  staged : Staged s.main.core ls fun t => t ≤ s.bleAt ∧ Waits s t

/-- Labels that are no approvals. -/
theorem Prompt.append {ls ms : List (Nat × CoreLabel)} (h : Prompt ls)
    (hms : ∀ t key nowMs, (t, .approve key nowMs) ∉ ms) : Prompt (ls ++ ms) := by
  intro pre t key nowMs post hsplit
  rcases List.append_eq_append_iff.mp hsplit with ⟨mid, hpre, hlater⟩ | ⟨mid, hls, hrest⟩
  · refine absurd ?_ (hms t key nowMs)
    rw [hlater]
    simp
  · cases mid with
    | nil =>
        refine absurd ?_ (hms t key nowMs)
        rw [← (List.nil_append ms), ← hrest]
        simp
    | cons e mid =>
        obtain ⟨rfl, -⟩ := List.cons.inj hrest
        exact h pre t key nowMs mid hls

/-- An approval that follows an offer. -/
theorem Prompt.approve {ls : List (Nat × CoreLabel)} (h : Prompt ls) {t staged : Nat}
    {j : StagedJob} (key : UInt32 × UInt32) (nowMs : UInt32)
    (hlast : ∃ before, ls = before ++ [(staged, .offer j)]) (hle : staged ≤ t)
    (hyoung : t < staged + bridgeTtlMs.toNat) : Prompt (ls ++ [(t, .approve key nowMs)]) := by
  intro pre t' key' nowMs' post hsplit
  rcases List.eq_nil_or_concat' post with rfl | ⟨post, e, rfl⟩
  · obtain ⟨rfl, hone⟩ := List.append_inj' hsplit rfl
    cases hone
    obtain ⟨before, rfl⟩ := hlast
    exact ⟨before, j, staged, rfl, hle, hyoung⟩
  · rw [← List.cons_append, ← List.append_assoc] at hsplit
    obtain ⟨hls, -⟩ := List.append_inj' hsplit rfl
    exact h pre t' key' nowMs' post hls

variable {core core' : BridgeCore} {ls : List (Nat × CoreLabel)} {age age' : Nat → Prop}

theorem Staged.mono (h : Staged core ls age) (hage : ∀ t, age t → age' t) :
    Staged core ls age' := by
  intro hstaged
  obtain ⟨t, hat, ht⟩ := h hstaged
  exact ⟨t, hat, hage t ht⟩

theorem Staged.idle (h : core.state ≠ .staged) : Staged core ls age := fun hstaged =>
  absurd hstaged h

-- ============================================================ the core's calls

/-- Nothing is seen of a core that the keyboard side leaves STAGED. -/
theorem Staged.seen (h : Staged core' ls age) {es : List UsbEvent}
    (hdrives : Drives CoreCall.keyboards core es core') (now : Nat) :
    Staged core' (ls ++ (coreLabelsOf es).map (now, ·)) age := by
  intro hstaged
  obtain ⟨-, hnone⟩ := hdrives.still hstaged
  rw [hnone, List.map_nil, List.append_nil]
  exact h hstaged

theorem Prompt.driven (h : Prompt ls) {es : List UsbEvent}
    (hdrives : Drives CoreCall.keyboards core es core') (now : Nat) :
    Prompt (ls ++ (coreLabelsOf es).map (now, ·)) := by
  apply h.append
  intro t key nowMs hmem
  obtain ⟨l, hl, heq⟩ := List.mem_map.mp hmem
  cases heq
  exact (hdrives.labels hl).2 key nowMs rfl

/-- The age of a job, read less than a turn after it was staged. -/
theorem StagedAt.elapsed {t now : Nat} (h : StagedAt core ls t) (hle : t ≤ now)
    (hturn : now < t + 2 ^ 32) :
    core.elapsed (reading now) ↔ t + bridgeTtlMs.toNat ≤ now := by
  unfold BridgeCore.elapsed
  rw [h.clock, h.ttl, ge_iff_le, ← not_iff_not, UInt32.not_le, young_iff hle hturn, not_le]

/-- After a tick, a job that is still STAGED is younger than its ttl. -/
theorem Staged.ticked {now : Nat} (h : Staged core ls fun t => t ≤ now ∧ now < t + 2 ^ 32) :
    Staged (bridgeCoreTick core (reading now)).2 ls
      fun t => t ≤ now ∧ now < t + bridgeTtlMs.toNat := by
  intro hstaged
  rcases bridgeCoreTick_cases core (reading now) with ⟨-, -, htick⟩ | ⟨hyoung, htick⟩
  · rw [htick] at hstaged
    exact absurd hstaged (by simp)
  · rw [htick] at hstaged ⊢
    obtain ⟨t, hat, hle, hturn⟩ := h hstaged
    refine ⟨t, hat, hle, ?_⟩
    have hnot : ¬core.elapsed (reading now) := fun helapsed => hyoung ⟨hstaged, helapsed⟩
    rw [hat.elapsed hle hturn] at hnot
    exact Nat.lt_of_not_le hnot

-- ================================================================ the steps

theorem mainLoop_clocks (m : UsbMain) (nowMs : UInt32) :
    (mainLoop m nowMs).1.usbNowMs = nowMs ∧ (mainLoop m nowMs).1.bleNowMs = nowMs := by
  rcases mainLoop_cases m nowMs with ⟨-, h⟩ | ⟨-, h⟩ | h <;> rw [h] <;> exact ⟨rfl, rfl⟩

theorem drainNext_clocks (m : UsbMain) :
    (drainNext m).1.usbNowMs = m.usbNowMs ∧ (drainNext m).1.bleNowMs = m.bleNowMs := by
  rcases drainNext_cases m with ⟨-, h⟩ | ⟨-, h⟩ | ⟨-, -, h⟩ | ⟨-, -, h⟩ <;> rw [h] <;>
    exact ⟨rfl, rfl⟩

/-- Which of the answers read the clock. -/
theorem clocks_cases (s : TimedMain) (i : UsbInput) (now : Nat) :
    (∃ cbs nowMs, s.main.pc = .top ∧ i = .tudTask cbs nowMs) ∨
      (∃ deadline cbs nowMs, s.main.pc = .task deadline ∧ i = .tudTask cbs nowMs) ∨
      (∀ cbs nowMs, s.main.pc = .top → i ≠ .tudTask cbs nowMs) ∧
        s.clocks i now = (s.usbAt, s.bleAt) ∧
        (usbStep s.main i).1.usbNowMs = s.main.usbNowMs ∧
        (usbStep s.main i).1.bleNowMs = s.main.bleNowMs := by
  by_cases htop : ∃ cbs nowMs, s.main.pc = .top ∧ i = .tudTask cbs nowMs
  · exact .inl htop
  by_cases htask : ∃ deadline cbs nowMs, s.main.pc = .task deadline ∧ i = .tudTask cbs nowMs
  · exact .inr (.inl htask)
  refine .inr (.inr ⟨fun cbs nowMs hpc hi => htop ⟨cbs, nowMs, hpc, hi⟩, ?_, ?_⟩)
  · unfold TimedMain.clocks
    split
    next hpc => exact absurd ⟨_, _, hpc, rfl⟩ htop
    next hpc => exact absurd ⟨_, _, _, hpc, rfl⟩ htask
    next => rfl
  · have hcase := usbStep_cases s.main i
    generalize usbStep s.main i = r at hcase
    cases hcase with
    | top hpc => exact absurd ⟨_, _, hpc, rfl⟩ htop
    | task hpc => exact absurd ⟨_, _, _, hpc, rfl⟩ htask
    | next hpc => exact drainNext_clocks s.main
    | _ => exact ⟨rfl, rfl⟩

theorem tick_idle (h : core.state ≠ .staged) (nowMs : UInt32) :
    (bridgeCoreTick core nowMs).2.state ≠ .staged := by
  rcases bridgeCoreTick_cases core nowMs with ⟨hstaged, -, -⟩ | ⟨-, htick⟩
  · exact absurd hstaged h
  · rw [htick]
    exact h

theorem drainReturn_idle {m : UsbMain} (h : m.core.state ≠ .staged) :
    (drainReturn m).1.core.state ≠ .staged := tick_idle h m.usbNowMs

/-- The tick, on the way to the transports: a pass that gets there with a
STAGED job has not waited. -/
theorem tickAndPoll_staged {m : UsbMain} {usbAt bleAt : Nat} (husb : m.usbNowMs = reading usbAt)
    (hage : Staged m.core ls fun t => t ≤ bleAt ∧ usbAt = bleAt ∧ bleAt < t + 2 ^ 32) :
    Staged (tickAndPoll m).1.core ls fun t => t ≤ bleAt ∧ bleAt < t + bridgeTtlMs.toNat := by
  have hcore : (tickAndPoll m).1.core = (bridgeCoreTick m.core m.usbNowMs).2 := rfl
  rw [hcore, husb]
  by_cases hwaited : usbAt = bleAt
  · rw [hwaited]
    apply Staged.ticked
    apply hage.mono
    intro t ht
    exact ⟨ht.1, ht.2.2⟩
  · have hidle : m.core.state ≠ .staged := fun hstaged =>
      have ⟨_, _, _, hsame, _⟩ := hage hstaged
      hwaited hsame
    exact .idle (tick_idle hidle _)

/-- The head of a pass. -/
theorem mainLoop_staged {m : UsbMain} {now : Nat}
    (hage : Staged m.core ls fun t => t ≤ now ∧ now < t + 2 ^ 32) :
    Staged (mainLoop m (reading now)).1.core ls fun t =>
      t ≤ now ∧ Waits ⟨(mainLoop m (reading now)).1, now, now⟩ t := by
  have hfresh : Staged m.core ls fun t => t ≤ now ∧ now = now ∧ now < t + 2 ^ 32 :=
    hage.mono fun t ht => ⟨ht.1, rfl, ht.2⟩
  rcases mainLoop_cases m (reading now) with ⟨-, h⟩ | ⟨-, h⟩ | h
  · rw [h]
    apply Staged.idle
    apply drainReturn_idle
    show (terminate m.core .cancelled).state ≠ .staged
    simp
  · rw [h]
    exact hfresh
  · rw [h]
    exact tickAndPoll_staged (m := { m with usbNowMs := reading now, bleNowMs := reading now })
      rfl hfresh

/-- While the drain waits for the endpoint, no job is STAGED. -/
theorem Timely.waiting {s : TimedMain} (h : Timely s ls)
    (hpc : s.main.pc ≠ .top ∧ s.main.pc ≠ .poll ∧ s.main.pc ≠ .loop) :
    s.main.core.state ≠ .staged := by
  intro hstaged
  obtain ⟨t, -, -, hwaits⟩ := h.staged hstaged
  unfold Waits at hwaits
  split at hwaits
  next htop => exact hpc.1 htop
  next hpoll => exact hpc.2.1 hpoll
  next hloop => exact hpc.2.2 hloop
  next => exact hwaits

/-- In the drain's loop a STAGED job meets the clock of its pass. -/
theorem Timely.draining {s : TimedMain} (h : Timely s ls) (hpc : s.main.pc = .loop) :
    Staged s.main.core ls fun t => t ≤ s.bleAt ∧ s.usbAt = s.bleAt ∧ s.bleAt < t + 2 ^ 32 := by
  apply h.staged.mono
  intro t ht
  unfold Waits at ht
  rw [hpc] at ht
  exact ht

/-- The head of the loop of the drain, and what it calls. -/
theorem drainNext_staged {m : UsbMain} {usbAt bleAt : Nat} (husb : m.usbNowMs = reading usbAt)
    (hage : Staged m.core ls fun t => t ≤ bleAt ∧ usbAt = bleAt ∧ bleAt < t + 2 ^ 32) :
    Staged (drainNext m).1.core ls fun t =>
      t ≤ bleAt ∧ Waits ⟨(drainNext m).1, usbAt, bleAt⟩ t := by
  have hdropped : ∀ st : BridgeState, st ≠ .staged → (m.drop st).core.state ≠ .staged :=
    fun st hst => hst
  rcases drainNext_cases m with ⟨-, h⟩ | ⟨-, h⟩ | ⟨-, -, h⟩ | ⟨hexecuting, -, h⟩
  · rw [h]
    exact .idle (drainReturn_idle (hdropped _ (by simp)))
  · rw [h]
    exact tickAndPoll_staged (m := { m with lastUsbDrainMs := m.usbNowMs }) husb hage
  · rw [h]
    exact .idle (drainReturn_idle (hdropped _ (by simp)))
  · rw [h]
    apply Staged.idle
    show m.core.state ≠ .staged
    rw [hexecuting]
    simp

/-- A step of the keyboard side's own. -/
theorem own_timely {s : TimedMain} {i : UsbInput × Nat} (h : Timely s ls)
    (hclock : ClockRuns s i) (hown : ∀ calls, i.1 ≠ .asyncPoll calls) :
    Timely (timedMachine.step s i).1 (ls ++ timedLabels (timedMachine.step s i).2) := by
  have hdrives := usbStep_drives s.main hown
  obtain ⟨input, now⟩ := i
  have hstep : timedMachine.step s (input, now)
      = (⟨(usbStep s.main input).1, (s.clocks input now).1, (s.clocks input now).2⟩,
          (usbStep s.main input).2.map ((s.clocks input now).2, ·)) := rfl
  rw [hstep, timedLabels_at]
  have hprompt := h.prompt.driven hdrives (s.clocks input now).2
  rcases clocks_cases s input now with
    ⟨cbs, nowMs, hpc, rfl⟩ | ⟨deadline, cbs, nowMs, hpc, rfl⟩ | ⟨hhead, hclocks, husb, hble⟩
  · have hclocks : s.clocks (.tudTask cbs nowMs) now = (now, now) := by
      unfold TimedMain.clocks
      rw [hpc]
    obtain ⟨rfl, hle, hturn⟩ : nowMs = reading now ∧ s.usbAt ≤ now ∧
        now + bridgeTtlMs.toNat < s.bleAt + 2 ^ 32 := by
      unfold ClockRuns at hclock
      rwa [hpc] at hclock
    have hmain : (usbStep s.main (.tudTask cbs (reading now))).1
        = (mainLoop (tudTask s.main cbs).1 (reading now)).1 := by
      unfold usbStep
      rw [hpc]
    obtain ⟨husb, hble⟩ := mainLoop_clocks (tudTask s.main cbs).1 (reading now)
    rw [hclocks] at hprompt ⊢
    refine ⟨?_, ?_, le_refl _, hprompt, Staged.seen ?_ hdrives now⟩
    · rw [hmain]
      exact husb
    · rw [hmain]
      exact hble
    · rw [hmain]
      apply mainLoop_staged
      intro hstaged
      obtain ⟨hsame, -⟩ := (drives_tudTask s.main cbs).still hstaged
      rw [hsame] at hstaged ⊢
      obtain ⟨t, hat, hbefore, hwaits⟩ := h.staged hstaged
      unfold Waits at hwaits
      rw [hpc] at hwaits
      have horder := h.order
      exact ⟨t, hat, by omega, by omega⟩
  · have hclocks : s.clocks (.tudTask cbs nowMs) now = (now, s.bleAt) := by
      unfold TimedMain.clocks
      rw [hpc]
    obtain ⟨rfl, hle⟩ : nowMs = reading now ∧ s.usbAt ≤ now := by
      unfold ClockRuns at hclock
      rwa [hpc] at hclock
    have hmain : (usbStep s.main (.tudTask cbs (reading now))).1
        = { (tudTask s.main cbs).1 with usbNowMs := reading now, pc := .wait deadline } := by
      unfold usbStep
      rw [hpc]
    have hidle : s.main.core.state ≠ .staged := h.waiting (by simp [hpc])
    rw [hclocks] at hprompt ⊢
    refine ⟨?_, ?_, h.order.trans hle, hprompt, .idle fun hstaged => ?_⟩
    · rw [hmain]
    · rw [hmain]
      exact h.ble
    · obtain ⟨hsame, -⟩ := hdrives.still hstaged
      exact hidle (hsame ▸ hstaged)
  · rw [hclocks] at hprompt ⊢
    refine ⟨husb.trans h.usb, hble.trans h.ble, h.order, hprompt, Staged.seen ?_ hdrives s.bleAt⟩
    have hwaiting : (s.main.pc ≠ .top ∧ s.main.pc ≠ .poll ∧ s.main.pc ≠ .loop) →
        Staged (usbStep s.main input).1.core ls fun t =>
          t ≤ s.bleAt ∧ Waits ⟨(usbStep s.main input).1, s.usbAt, s.bleAt⟩ t := by
      intro hpc
      apply Staged.idle
      intro hstaged
      obtain ⟨hsame, -⟩ := hdrives.still hstaged
      exact h.waiting hpc (hsame ▸ hstaged)
    have hcase := usbStep_cases s.main input
    generalize usbStep s.main input = r at hcase hwaiting ⊢
    cases hcase with
    | skip => exact h.staged
    | top hpc => exact absurd rfl (hhead _ _ hpc)
    | task hpc => exact hwaiting (by simp [hpc])
    | next hpc => exact drainNext_staged h.usb (h.draining hpc)
    | busy hpc =>
        exact tickAndPoll_staged (m := { s.main with lastUsbDrainMs := s.main.usbNowMs }) h.usb
          (h.draining hpc)
    | pressed hpc => exact hwaiting (by simp [hpc])
    | refused hpc => exact hwaiting (by simp [hpc])
    | waited hpc => exact hwaiting (by simp [hpc])
    | free hpc => exact hwaiting (by simp [hpc])
    | gaveUp hpc => exact hwaiting (by simp [hpc])
    | released hpc => exact hwaiting (by simp [hpc])
    | unreleased hpc => exact hwaiting (by simp [hpc])
    | polled => exact absurd rfl (hown _)

-- ============================================================= the transports

/-- A job of less than the ttl, in the poll of a pass. -/
def Young (bleAt t : Nat) : Prop := t ≤ bleAt ∧ bleAt < t + bridgeTtlMs.toNat

/-- A command's call of the core: it confirms a young job, or stages one
at the time of the pass. -/
theorem call_prompt {bleAt : Nat} (hprompt : Prompt ls) (hstaged : Staged core ls (Young bleAt))
    (call : TransportCall) :
    let r := coreMachine.step core (false, call.coreCall (reading bleAt))
    Prompt (ls ++ r.2.map (bleAt, ·)) ∧ Staged r.1 (ls ++ r.2.map (bleAt, ·)) (Young bleAt) := by
  have hsame : Prompt (ls ++ ([] : List CoreLabel).map (bleAt, ·)) ∧
      Staged core (ls ++ ([] : List CoreLabel).map (bleAt, ·)) (Young bleAt) := by
    rw [List.map_nil, List.append_nil]
    exact ⟨hprompt, hstaged⟩
  have hdropped : ∀ st : BridgeState, st ≠ .staged →
      Prompt (ls ++ ([.drop] : List CoreLabel).map (bleAt, ·)) ∧
        Staged (terminate core st) (ls ++ ([.drop] : List CoreLabel).map (bleAt, ·))
          (Young bleAt) := by
    intro st hst
    exact ⟨hprompt.append (by simp), .idle hst⟩
  simp only [coreMachine, coreCall, Bool.false_eq_true, if_false]
  cases call with
  | stage owner id layout mode flags utf8 length =>
      simp only [TransportCall.coreCall, coreOp]
      rcases bridgeCoreStage_cases core owner id layout mode flags (some utf8) length
          (reading bleAt) bridgeTtlMs with ⟨-, h⟩ | ⟨-, st, hok, -, h⟩ | ⟨-, -, -, _, n, f, -, h, -⟩
      · rw [h]
        exact hsame
      · have hnone : coreLabels (.stage owner id layout mode flags (some utf8) length
            (reading bleAt) bridgeTtlMs) ⟨some st, zeroStroke⟩ (terminate core .rejected) = [] := by
          cases st <;> first | rfl | exact absurd rfl hok
        rw [h]
        simp only [hnone]
        exact ⟨hsame.1, .idle (by simp)⟩
      · rw [h]
        refine ⟨hprompt.append (by simp [coreLabels]), fun _ => ⟨bleAt, ⟨⟨ls, rfl⟩, rfl, rfl⟩, ?_⟩⟩
        exact ⟨le_refl _, Nat.lt_add_of_pos_right (by decide)⟩
  | confirm owner id =>
      simp only [TransportCall.coreCall, coreOp]
      rcases bridgeCoreConfirm_cases core owner id (reading bleAt) with
        ⟨st, hst, h⟩ | ⟨hs, rfl, rfl, he, h⟩ | ⟨hs, rfl, rfl, he, h⟩
      · rw [h]
        rcases hst with rfl | rfl | rfl <;> exact hsame
      · rw [h]
        exact hdropped .expired (by simp)
      · rw [h]
        obtain ⟨t, hat, hle, hyoung⟩ := hstaged hs
        exact ⟨hprompt.approve _ _ hat.last hle hyoung, .idle (by simp)⟩
  | cancel owner id =>
      simp only [TransportCall.coreCall, coreOp]
      rcases bridgeCoreCancel_cases core owner id with ⟨-, -, -, h⟩ | ⟨-, st, hst, h⟩
      · rw [h]
        exact hdropped .cancelled (by simp)
      · rw [h]
        rcases hst with rfl | rfl | rfl <;> exact hsame
  | tick nowMs =>
      simp only [TransportCall.coreCall, coreOp]
      rcases bridgeCoreTick_cases core nowMs with ⟨-, -, h⟩ | ⟨-, h⟩
      · rw [h]
        exact hdropped .expired (by simp)
      · rw [h]
        exact hsame

/-- The calls of a poll. -/
theorem calls_prompt {bleAt : Nat} (hprompt : Prompt ls) (hstaged : Staged core ls (Young bleAt))
    (calls : List TransportCall) :
    let cs := (calls.map (TransportCall.coreCall (reading bleAt))).map (false, ·)
    let seen := ls ++ (coreMachine.trace core cs).map (bleAt, ·)
    Prompt seen ∧ Staged (coreMachine.final core cs) seen (Young bleAt) := by
  have hrun := coreMachine.run_inv
    (G := fun _ c => ∃ call : TransportCall, c = (false, call.coreCall (reading bleAt)))
    (P := fun core' h => Prompt (ls ++ h.map (bleAt, ·)) ∧
      Staged core' (ls ++ h.map (bleAt, ·)) (Young bleAt))
    (fun core' h c hP hc => by
      obtain ⟨call, rfl⟩ := hc
      rw [List.map_append, ← List.append_assoc]
      exact call_prompt hP.1 hP.2 call)
  refine hrun _ core [] ?_ ?_
  · rw [List.map_nil, List.append_nil]
    exact ⟨hprompt, hstaged⟩
  · apply coreMachine.stepsMeet_of_mem
    intro c hc _
    obtain ⟨_, hcall, rfl⟩ := List.mem_map.mp hc
    obtain ⟨call, -, rfl⟩ := List.mem_map.mp hcall
    exact ⟨call, rfl⟩

/-- The poll of the transports. -/
theorem poll_timely {s : TimedMain} (h : Timely s ls) (hpc : s.main.pc = .poll)
    (calls : List TransportCall) (now : Nat) :
    Timely (timedMachine.step s (.asyncPoll calls, now)).1
      (ls ++ timedLabels (timedMachine.step s (.asyncPoll calls, now)).2) := by
  have hclocks : s.clocks (.asyncPoll calls) now = (s.usbAt, s.bleAt) := by
    unfold TimedMain.clocks
    rw [hpc]
  have hmain : usbStep s.main (.asyncPoll calls)
      = ({ (s.main.callCore (calls.map (TransportCall.coreCall s.main.bleNowMs))).1 with
            pc := .top },
          (s.main.callCore (calls.map (TransportCall.coreCall s.main.bleNowMs))).2) := by
    unfold usbStep
    rw [hpc]
  have hstep : timedMachine.step s (.asyncPoll calls, now)
      = (⟨(usbStep s.main (.asyncPoll calls)).1, (s.clocks (.asyncPoll calls) now).1,
            (s.clocks (.asyncPoll calls) now).2⟩,
          (usbStep s.main (.asyncPoll calls)).2.map ((s.clocks (.asyncPoll calls) now).2, ·)) := rfl
  have hyoung : Staged s.main.core ls (Young s.bleAt) := by
    apply h.staged.mono
    intro t ht
    unfold Waits at ht
    rw [hpc] at ht
    exact ht
  obtain ⟨hprompt, hstaged⟩ := calls_prompt h.prompt hyoung calls
  rw [hstep, hclocks, timedLabels_at, hmain, h.ble]
  have hlabels : coreLabelsOf (s.main.callCore
        (calls.map (TransportCall.coreCall (reading s.bleAt)))).2
      = coreMachine.trace s.main.core
        ((calls.map (TransportCall.coreCall (reading s.bleAt))).map (false, ·)) :=
    coreLabelsOf_core _
  rw [hlabels]
  exact ⟨h.usb, h.ble, h.order, hprompt, hstaged⟩

theorem timely_step {s : TimedMain} (h : Timely s ls) {i : UsbInput × Nat}
    (hclock : ClockRuns s i) :
    Timely (timedMachine.step s i).1 (ls ++ timedLabels (timedMachine.step s i).2) := by
  by_cases hpoll : ∃ calls, i.1 = .asyncPoll calls
  · obtain ⟨input, now⟩ := i
    obtain ⟨calls, rfl⟩ : ∃ calls, input = .asyncPoll calls := hpoll
    by_cases hpc : s.main.pc = .poll
    · exact poll_timely h hpc calls now
    · have hclocks : s.clocks (.asyncPoll calls) now = (s.usbAt, s.bleAt) := by
        unfold TimedMain.clocks
        split
        next hinput => cases hinput
        next hinput => cases hinput
        next => rfl
      have hmain : usbStep s.main (.asyncPoll calls) = (s.main, []) := usbStep_skip hpc calls
      have hstep : timedMachine.step s (.asyncPoll calls, now) = (s, []) := by
        show (TimedMain.mk (usbStep s.main (.asyncPoll calls)).1 _ _, _) = _
        rw [hclocks, hmain]
        rfl
      rw [hstep]
      exact (List.append_nil ls).symm ▸ h
  · exact own_timely h hclock fun calls heq => hpoll ⟨calls, heq⟩

-- ================================================================= the runs

/-- The invariant, in every run whose clock runs. -/
theorem timely_run {is : List (UsbInput × Nat)}
    (hclock : timedMachine.StepsMeet ClockRuns timedMainInit is) :
    Timely (timedMachine.final timedMainInit is)
      (timedLabels (timedMachine.trace timedMainInit is)) := by
  refine timedMachine.run_inv (P := fun s h => Timely s (timedLabels h)) ?_ is timedMainInit []
    ?_ hclock
  · intro s h i hP hi
    rw [timedLabels_append]
    exact timely_step hP hi
  · refine ⟨rfl, rfl, le_refl _, ?_, .idle (by decide)⟩
    intro pre t key nowMs post hsplit
    simp [timedLabels] at hsplit

/-- The loop beside the time is the loop. -/
theorem timed_usb (is : List (UsbInput × Nat)) : ∀ s : TimedMain,
    (timedMachine.trace s is).map Prod.snd = usbMachine.trace s.main (is.map Prod.fst) ∧
      (timedMachine.final s is).main = usbMachine.final s.main (is.map Prod.fst) := by
  induction is with
  | nil => exact fun s => ⟨rfl, rfl⟩
  | cons i is ih =>
      intro s
      obtain ⟨htrace, hfinal⟩ := ih (timedMachine.step s i).1
      refine ⟨?_, hfinal⟩
      rw [Machine.trace_cons, List.map_append, htrace]
      show ((usbStep s.main i.1).2.map _).map Prod.snd ++ _ = _
      rw [List.map_map]
      exact congrArg (· ++ _) (List.map_id _)

/-- A label of a timed run, found with its time. -/
theorem timedLabels_split {h : List (Nat × UsbEvent)} {ls' : List (Nat × CoreLabel)} {t : Nat}
    {l : CoreLabel} (hsplit : timedLabels h = ls' ++ [(t, l)]) :
    ∃ before between, h = before ++ (t, .core l) :: between ∧
      coreLabelsOf (between.map Prod.snd) = [] := by
  obtain ⟨before, rest, rfl, -, hrest⟩ := List.filterMap_eq_append_iff.mp hsplit
  obtain ⟨silent, e, between, rfl, -, he, hbetween⟩ := List.filterMap_eq_cons_iff.mp hrest
  obtain ⟨label, hlabel, heq⟩ := Option.map_eq_some_iff.mp he
  obtain ⟨rfl, rfl⟩ := Prod.mk.inj heq
  have hevent : e = (e.1, .core label) := by
    obtain ⟨t, event⟩ := e
    cases event <;> simp_all [UsbEvent.label?]
  refine ⟨before ++ silent, between, by rw [List.append_assoc, ← hevent], ?_⟩
  apply List.filterMap_eq_nil_iff.mpr
  intro event hmem
  obtain ⟨x, hx, rfl⟩ := List.mem_map.mp hmem
  exact Option.map_eq_none_iff.mp (List.filterMap_eq_nil_iff.mp hbetween x hx)

/-- An event of a timed run, found by what it is. -/
theorem map_snd_split {h : List (Nat × UsbEvent)} {xs ys : List UsbEvent} {x : UsbEvent}
    (hsplit : h.map Prod.snd = xs ++ x :: ys) :
    ∃ before t after, h = before ++ (t, x) :: after ∧ before.map Prod.snd = xs ∧
      after.map Prod.snd = ys := by
  obtain ⟨before, rest, rfl, hbefore, hrest⟩ := List.map_eq_append_iff.mp hsplit
  obtain ⟨e, after, rfl, rfl, hafter⟩ := List.map_eq_cons_iff.mp hrest
  exact ⟨before, e.1, after, rfl, hbefore, hafter⟩

theorem timedLabels_silent {h : List (Nat × UsbEvent)}
    (hnone : coreLabelsOf (h.map Prod.snd) = []) : timedLabels h = [] := by
  apply List.filterMap_eq_nil_iff.mpr
  intro e he
  have hlabel := List.filterMap_eq_nil_iff.mp hnone e.2 (List.mem_map_of_mem he)
  rw [hlabel]
  rfl

/-- Nothing old is typed. In every run of the loop whose clock runs, a
press report is a stroke of a job whose confirmation came in a pass that
began less than 15000 ms, in true time, after the pass that staged it. -/
theorem typed_in_time {is : List (UsbInput × Nat)}
    (hclock : timedMachine.StepsMeet ClockRuns timedMainInit is)
    {pre post : List (Nat × UsbEvent)} {e : Nat × UsbEvent} {r : HidReport}
    (hsplit : timedMachine.trace timedMainInit is = pre ++ e :: post)
    (hpress : e.2.press? = some r) :
    ∃ j nowMs staged confirmed before between during,
      pre = before ++ (staged, .core (.offer j)) ::
        (between ++ (confirmed, .core (.approve (j.owner, j.id) nowMs)) :: during) ∧
      JobHistory (pre.map Prod.snd) j nowMs (before.map Prod.snd) (between.map Prod.snd)
        (during.map Prod.snd) ∧
      r ∈ j.strokes.map BridgeStroke.press ∧
      staged ≤ confirmed ∧ confirmed < staged + 15000 := by
  have huntimed := (timed_usb is timedMainInit).1
  rw [hsplit, List.map_append, List.map_cons] at huntimed
  obtain ⟨j, nowMs, _, _, _, hhistory, rest, hstrokes⟩ := press_origin huntimed.symm hpress
  obtain ⟨before, staged, rest', rfl, rfl, hrest⟩ := map_snd_split hhistory.events
  obtain ⟨between, confirmed, during, rfl, rfl, rfl⟩ := map_snd_split hrest
  refine ⟨j, nowMs, staged, confirmed, before, between, during, rfl, hhistory, ?_, ?_⟩
  · rw [hstrokes]
    simp
  have hlabels : timedLabels (timedMachine.trace timedMainInit is)
      = (timedLabels before ++ [(staged, .offer j)]) ++
        (confirmed, .approve (j.owner, j.id) nowMs) ::
          (timedLabels during ++ timedLabels (e :: post)) := by
    have hoffer : timedLabels ((staged, .core (.offer j)) :: between) = [(staged, .offer j)] := by
      show (staged, .offer j) :: timedLabels between = _
      rw [timedLabels_silent hhistory.between]
    have happrove : ∀ es, timedLabels ((confirmed, .core (.approve (j.owner, j.id) nowMs)) :: es)
        = (confirmed, .approve (j.owner, j.id) nowMs) :: timedLabels es := fun _ => rfl
    rw [hsplit, timedLabels_append, timedLabels_append, ← List.cons_append, timedLabels_append,
      hoffer, happrove]
    simp
  obtain ⟨ls, j', staged', hlast, hle, hlt⟩ := (timely_run hclock).prompt _ _ _ _ _ hlabels
  obtain ⟨-, hone⟩ := List.append_inj' hlast rfl
  cases hone
  exact ⟨hle, hlt⟩

/-- A key that is staged before the clock's wrap and confirmed after it. -/
def wrapRun : List (UsbInput × Nat) :=
  [(.tudTask [.mount] (reading (2 ^ 31)), 2 ^ 31), (.ready true, 0), (.asyncPoll [], 0),
    (.tudTask [] (reading (2 ^ 32 - 5000)), 2 ^ 32 - 5000), (.ready true, 0),
    (.asyncPoll [.stage 7 1 bridgeLayoutUs bridgeModePassword 0 [0x61] 1], 0),
    (.tudTask [] (reading (2 ^ 32 + 3000)), 2 ^ 32 + 3000), (.ready true, 0),
    (.asyncPoll [.confirm 7 1], 0),
    (.tudTask [] (reading (2 ^ 32 + 3005)), 2 ^ 32 + 3005), (.ready true, 0), (.report true, 0)]

theorem wrapRun_trace : timedMachine.trace timedMainInit wrapRun
    = [(2 ^ 32 - 5000, .core (.offer ⟨7, 1, reading (2 ^ 32 - 5000), bridgeTtlMs, [⟨0, 4⟩]⟩)),
        (2 ^ 32 + 3000, .core (.approve (7, 1) 3000)),
        (2 ^ 32 + 3005, .core (.take ⟨0, 4⟩)),
        (2 ^ 32 + 3005, .report (⟨0, 4⟩ : BridgeStroke).press true)] := by
  decide +kernel

theorem typed_in_time_wrap : ∃ j nowMs staged confirmed before between during,
    (timedMachine.trace timedMainInit wrapRun).take 3 = before ++ (staged, .core (.offer j)) ::
      (between ++ (confirmed, .core (.approve (j.owner, j.id) nowMs)) :: during) ∧
    JobHistory (((timedMachine.trace timedMainInit wrapRun).take 3).map Prod.snd) j nowMs
      (before.map Prod.snd) (between.map Prod.snd) (during.map Prod.snd) ∧
    ⟨0, [4, 0, 0, 0, 0, 0]⟩ ∈ j.strokes.map BridgeStroke.press ∧
    staged ≤ confirmed ∧ confirmed < staged + 15000 :=
  @typed_in_time wrapRun (by decide +kernel) _ [] _ _
    (by rw [wrapRun_trace]; rfl) (by decide : UsbEvent.press?
      (.report (⟨0, 4⟩ : BridgeStroke).press true) = some ⟨0, [4, 0, 0, 0, 0, 0]⟩)

-- ============================================================== the expiries

theorem tick_expires {nowMs : UInt32} (h : (bridgeCoreTick core nowMs).2.state = .expired) :
    core.state = .expired ∨ core.state = .staged ∧ core.elapsed nowMs := by
  rcases bridgeCoreTick_cases core nowMs with ⟨hstaged, helapsed, -⟩ | ⟨-, htick⟩
  · exact .inr ⟨hstaged, helapsed⟩
  · rw [htick] at h
    exact .inl h

/-- The callbacks of `tud_task` leave the core or cancel its job. -/
theorem tudTask_core (m : UsbMain) (cbs : List UsbCallback) :
    (tudTask m cbs).1.core = m.core ∨ (tudTask m cbs).1.core.state = .cancelled := by
  show coreMachine.final m.core ((cbs.flatMap UsbCallback.coreCalls).map (false, ·)) = m.core ∨
    (coreMachine.final m.core ((cbs.flatMap UsbCallback.coreCalls).map (false, ·))).state
      = .cancelled
  generalize m.core = core
  induction cbs generalizing core with
  | nil => exact .inl rfl
  | cons cb cbs ih =>
      have haborted : coreMachine.final (terminate core .cancelled)
          ((cbs.flatMap UsbCallback.coreCalls).map (false, ·))
            = terminate core .cancelled ∨
          (coreMachine.final (terminate core .cancelled)
            ((cbs.flatMap UsbCallback.coreCalls).map (false, ·))).state = .cancelled := ih _
      have hcancelled : (coreMachine.final (terminate core .cancelled)
          ((cbs.flatMap UsbCallback.coreCalls).map (false, ·))).state = .cancelled := by
        rcases haborted with h | h
        · rw [h]
          rfl
        · exact h
      cases cb with
      | umount => exact .inr hcancelled
      | suspend => exact .inr hcancelled
      | _ => exact ih core

theorem mainLoop_expires {m : UsbMain} {nowMs : UInt32} (hlive : m.core.state ≠ .expired)
    (h : (mainLoop m nowMs).1.core.state = .expired) :
    m.core.state = .staged ∧ m.core.elapsed nowMs := by
  have hterminated : (terminate m.core .cancelled).state ≠ .expired := by simp
  rcases mainLoop_cases m nowMs with ⟨-, hloop⟩ | ⟨-, hloop⟩ | hloop
  · rw [hloop] at h
    rcases @tick_expires (terminate m.core .cancelled) nowMs h with hexpired | ⟨hstaged, -⟩
    · exact absurd hexpired hterminated
    · exact absurd hstaged (by simp)
  · rw [hloop] at h
    exact absurd h hlive
  · rw [hloop] at h
    rcases @tick_expires m.core nowMs h with hexpired | hstaged
    · exact absurd hexpired hlive
    · exact hstaged

/-- The keyboard side expires a STAGED job only when its clock says so. -/
theorem usbStep_expires {m : UsbMain} {i : UsbInput} (hown : ∀ calls, i ≠ .asyncPoll calls)
    (hstaged : m.core.state = .staged) (h : (usbStep m i).1.core.state = .expired) :
    m.core.elapsed (usbStep m i).1.usbNowMs := by
  have hlive : m.core.state ≠ .expired := by simp [hstaged]
  have hreturn : (drainReturn m).1.core.state = .expired →
      m.core.elapsed (drainReturn m).1.usbNowMs := by
    intro hexpired
    rcases @tick_expires m.core m.usbNowMs hexpired with hexpired | ⟨-, helapsed⟩
    · exact absurd hexpired hlive
    · exact helapsed
  have hcase := usbStep_cases m i
  generalize usbStep m i = r at h hcase ⊢
  cases hcase with
  | @top cbs nowMs hpc =>
      rw [(mainLoop_clocks _ _).1]
      rcases tudTask_core m cbs with hsame | hcancelled
      · rw [← hsame]
        exact (mainLoop_expires (hsame ▸ hlive) h).2
      · have hstill := mainLoop_expires (by simp [hcancelled]) h
        rw [hcancelled] at hstill
        exact absurd hstill.1 (by simp)
  | next hpc =>
      rcases bridgeCoreNext_cases m.core m.usbNowMs with
        ⟨-, helapsed, -⟩ | ⟨-, -, hnext⟩ | ⟨hexecuting, -⟩ | ⟨hexecuting, -⟩
      · rw [(drainNext_clocks m).1]
        exact helapsed
      · have hdrain : drainNext m = drainReturn m := by
          unfold drainNext
          rw [hnext]
          rfl
        rw [hdrain] at h ⊢
        exact hreturn h
      · exact absurd (hstaged.symm.trans hexecuting) (by simp)
      · exact absurd (hstaged.symm.trans hexecuting) (by simp)
  | busy hpc => exact hreturn h
  | refused hpc => exact hreturn h
  | gaveUp hpc => exact hreturn h
  | unreleased hpc => exact hreturn h
  | @task deadline cbs nowMs hpc =>
      rcases tudTask_core m cbs with hsame | hcancelled
      · exact absurd (hsame ▸ h) hlive
      · exact absurd (hcancelled.symm.trans h) (by simp)
  | polled => exact absurd rfl (hown _)
  | _ => exact absurd h hlive

/-- A step that expires a job has the clock of its pass. -/
theorem expires_clock {s : TimedMain} (h : Timely s ls) {i : UsbInput × Nat}
    (hclock : ClockRuns s i) (hown : ∀ calls, i.1 ≠ .asyncPoll calls)
    (hstaged : s.main.core.state = .staged)
    (hexpired : (usbStep s.main i.1).1.core.state = .expired) {t : Nat} (hle : t ≤ s.bleAt)
    (hwaits : Waits s t) :
    let s' := (timedMachine.step s i).1
    s'.usbAt = s'.bleAt ∧ t ≤ s'.bleAt ∧ s'.bleAt < t + 2 ^ 32 := by
  obtain ⟨input, now⟩ := i
  show (s.clocks input now).1 = (s.clocks input now).2 ∧ t ≤ (s.clocks input now).2 ∧
    (s.clocks input now).2 < t + 2 ^ 32
  unfold Waits at hwaits
  rcases clocks_cases s input now with
    ⟨cbs, nowMs, hpc, rfl⟩ | ⟨deadline, cbs, nowMs, hpc, rfl⟩ | ⟨hhead, hclocks, -, -⟩
  · have hclocks : s.clocks (.tudTask cbs nowMs) now = (now, now) := by
      unfold TimedMain.clocks
      rw [hpc]
    unfold ClockRuns at hclock
    rw [hpc] at hwaits hclock
    obtain ⟨-, hnow, hturn⟩ := hclock
    have horder := h.order
    dsimp only at hnow hturn
    rw [hclocks]
    exact ⟨rfl, by omega, by omega⟩
  · exact absurd hstaged (h.waiting (by simp [hpc]))
  · rw [hclocks]
    have hloop : s.main.pc = .loop := by
      have hcase := usbStep_cases s.main input
      generalize usbStep s.main input = r at hexpired hcase
      cases hcase with
      | skip => exact absurd (hstaged.symm.trans hexpired) (by simp)
      | top hpc => exact absurd rfl (hhead _ _ hpc)
      | next hpc => exact hpc
      | busy hpc => exact hpc
      | polled => exact absurd rfl (hown _)
      | _ hpc => exact absurd hstaged (h.waiting (by simp [hpc]))
    rw [hloop] at hwaits
    exact ⟨hwaits.1, hle, hwaits.2⟩

/-- How long a secret stays. In every run of the loop whose clock runs, a
job that is STAGED when the loop polls the transports was staged in a pass
that began less than 15000 ms before this one, in true time; and where a
step of the loop itself expires a job, that pass began 15000 ms ago or
more. -/
theorem staged_lifetime {is : List (UsbInput × Nat)}
    (hclock : timedMachine.StepsMeet ClockRuns timedMainInit is)
    (hstaged : (timedMachine.final timedMainInit is).main.core.state = .staged) :
    ∃ j staged before between,
      timedMachine.trace timedMainInit is = before ++ (staged, .core (.offer j)) :: between ∧
      coreLabelsOf (between.map Prod.snd) = [] ∧
      ((timedMachine.final timedMainInit is).main.pc = .poll →
        (timedMachine.final timedMainInit is).bleAt < staged + 15000) ∧
      ∀ i, (∀ calls, i.1 ≠ .asyncPoll calls) → ClockRuns (timedMachine.final timedMainInit is) i →
        (timedMachine.final timedMainInit (is ++ [i])).main.core.state = .expired →
        staged + 15000 ≤ (timedMachine.final timedMainInit (is ++ [i])).bleAt := by
  have htimely := timely_run hclock
  generalize timedMachine.trace timedMainInit is = h at htimely ⊢
  have hfinal : ∀ i, timedMachine.final timedMainInit (is ++ [i])
      = (timedMachine.step (timedMachine.final timedMainInit is) i).1 :=
    fun i => timedMachine.final_append timedMainInit is [i]
  simp only [hfinal]
  generalize timedMachine.final timedMainInit is = s at hstaged htimely ⊢
  obtain ⟨t, hat, hle, hwaits⟩ := htimely.staged hstaged
  obtain ⟨ls, hlast⟩ := hat.last
  obtain ⟨before, between, hevents, hsilent⟩ := timedLabels_split hlast
  refine ⟨s.main.core.job, t, before, between, hevents, hsilent, ?_, ?_⟩
  · intro hpc
    unfold Waits at hwaits
    rw [hpc] at hwaits
    exact hwaits
  · intro i hown hi hexpired
    have helapsed := usbStep_expires hown hstaged hexpired
    have hnext := own_timely htimely hi hown
    have husb : (usbStep s.main i.1).1.usbNowMs
        = reading (timedMachine.step s i).1.usbAt := hnext.usb
    obtain ⟨hsame, hbefore, hturn⟩ := expires_clock htimely hi hown hstaged hexpired hle hwaits
    rw [husb, hsame, hat.elapsed hbefore hturn] at helapsed
    exact helapsed

/-- The key of that run, still STAGED after the clock's wrap. -/
theorem staged_lifetime_wrap : ∃ j staged before between,
    timedMachine.trace timedMainInit (wrapRun.take 8)
      = before ++ (staged, .core (.offer j)) :: between ∧
    coreLabelsOf (between.map Prod.snd) = [] ∧
    ((timedMachine.final timedMainInit (wrapRun.take 8)).main.pc = .poll →
      (timedMachine.final timedMainInit (wrapRun.take 8)).bleAt < staged + 15000) ∧
    ∀ i, (∀ calls, i.1 ≠ .asyncPoll calls) →
      ClockRuns (timedMachine.final timedMainInit (wrapRun.take 8)) i →
      (timedMachine.final timedMainInit (wrapRun.take 8 ++ [i])).main.core.state = .expired →
      staged + 15000 ≤ (timedMachine.final timedMainInit (wrapRun.take 8 ++ [i])).bleAt :=
  staged_lifetime (by decide +kernel) (by decide +kernel)

end PicoBridge
