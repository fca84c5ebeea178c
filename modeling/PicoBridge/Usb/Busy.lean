/-
How long the core can be BUSY, in true time.

# The guard

`usb_hid_drain` notes when it first finds the core EXECUTING and aborts
the job once it finds it EXECUTING more than 2000 ms later. What it notes
is a reading of a 32-bit clock, 0 stands for nothing noted, and what was
noted for one job stays when the next one follows on. None of this makes
it wait too long: a reading of 0 costs one more drain, and an old note
ends a job sooner (`Noted`).

# The bound

It acts when the loop comes round. With passes that begin at most `gap`
after one another, a drain is entered less than `gap + 5` after the pass
that last left one, so a job that is EXECUTING in a pass was confirmed at
most `2015 + 5 * gap` before (`busy_bounded`): up to two drains to note
it, the 2000 ms, and one more drain.
-/
import PicoBridge.Usb.Stall
import PicoBridge.Usb.Deadline

namespace PicoBridge

open Lib (Machine)
open Lib.Clock

-- ============================================================ the bookkeeping

/-- Inside `usb_hid_drain`. -/
def UsbMain.draining (m : UsbMain) : Prop := m.pc ≠ .top ∧ m.pc ≠ .poll

/-- What a step but the head of a pass does to the note and to the time
of the last drain: nothing, but that a drain that ends leaves its time. -/
theorem usbStep_books (m : UsbMain) {i : UsbInput}
    (hhead : ∀ cbs nowMs, m.pc = .top → i ≠ .tudTask cbs nowMs) :
    let m' := (usbStep m i).1
    m'.execSinceMs = m.execSinceMs ∧
      ((m'.draining ↔ m.draining) ∧ m'.lastUsbDrainMs = m.lastUsbDrainMs ∨
        m.draining ∧ ¬m'.draining ∧ m'.lastUsbDrainMs = m.usbNowMs) := by
  have hreturns : ∀ m₁ : UsbMain, m.draining → m₁.usbNowMs = m.usbNowMs →
      ((drainReturn m₁).1.draining ↔ m.draining) ∧
          (drainReturn m₁).1.lastUsbDrainMs = m.lastUsbDrainMs ∨
        m.draining ∧ ¬(drainReturn m₁).1.draining ∧
          (drainReturn m₁).1.lastUsbDrainMs = m.usbNowMs := by
    intro m₁ hin husb
    refine .inr ⟨hin, fun hout => hout.2 rfl, husb⟩
  have hcase := usbStep_cases m i
  generalize usbStep m i = r at hcase
  cases hcase with
  | skip => exact ⟨rfl, .inl ⟨Iff.rfl, rfl⟩⟩
  | top hpc => exact absurd rfl (hhead _ _ hpc)
  | busy hpc => exact ⟨rfl, hreturns m (by simp [UsbMain.draining, hpc]) rfl⟩
  | refused hpc => exact ⟨rfl, hreturns m (by simp [UsbMain.draining, hpc]) rfl⟩
  | gaveUp hpc => exact ⟨rfl, hreturns m (by simp [UsbMain.draining, hpc]) rfl⟩
  | unreleased hpc => exact ⟨rfl, hreturns m (by simp [UsbMain.draining, hpc]) rfl⟩
  | pressed hpc => exact ⟨rfl, .inl ⟨by simp [UsbMain.draining, hpc], rfl⟩⟩
  | waited hpc =>
      refine ⟨rfl, .inl ⟨?_, rfl⟩⟩
      unfold UsbMain.draining
      dsimp only
      rw [hpc]
      split <;> simp
  | task hpc => exact ⟨rfl, .inl ⟨by simp [UsbMain.draining, hpc], rfl⟩⟩
  | free hpc => exact ⟨rfl, .inl ⟨by simp [UsbMain.draining, hpc], rfl⟩⟩
  | released hpc => exact ⟨rfl, .inl ⟨by simp [UsbMain.draining, hpc], rfl⟩⟩
  | polled hpc => exact ⟨rfl, .inl ⟨by simp [UsbMain.draining, hpc], rfl⟩⟩
  | next hpc =>
      refine ⟨drainNext_execSinceMs m, ?_⟩
      have hin : m.draining := by simp [UsbMain.draining, hpc]
      rcases drainNext_cases m with ⟨-, h⟩ | ⟨-, h⟩ | ⟨-, -, h⟩ | ⟨-, -, h⟩
      · rw [h]
        exact hreturns (m.drop .expired) hin rfl
      · rw [h]
        exact hreturns m hin rfl
      · rw [h]
        exact hreturns (m.drop .completed) hin rfl
      · rw [h]
        refine .inl ⟨iff_of_true ?_ hin, rfl⟩
        unfold UsbMain.draining
        dsimp only
        split <;> simp

-- ================================================================== the job

variable {core core' : BridgeCore} {ls : List (Nat × CoreLabel)}

/-- What the core is EXECUTING was confirmed at a time, and of the core
nothing but strokes was seen since. -/
def Begun (core : BridgeCore) (ls : List (Nat × CoreLabel)) (c : Nat) : Prop :=
  ∃ pre nowMs post, ls = pre ++ (c, .approve (core.owner, core.id) nowMs) :: post ∧
    ∀ l ∈ post, ∃ stroke, l.2 = .take stroke

/-- An EXECUTING job was confirmed at a time of which this is so. -/
def Executing (core : BridgeCore) (ls : List (Nat × CoreLabel)) (age : Nat → Prop) : Prop :=
  core.state = .executing → ∃ c, Begun core ls c ∧ age c

theorem Executing.mono {age age' : Nat → Prop} (h : Executing core ls age)
    (hage : ∀ c, age c → age' c) : Executing core ls age' := by
  intro hexecuting
  obtain ⟨c, hbegun, hc⟩ := h hexecuting
  exact ⟨c, hbegun, hage c hc⟩

/-- The keyboard side has a core EXECUTING only if it was, and takes
strokes of its job. -/
theorem keyboards_going {call : CoreCall} (hcall : call.keyboards)
    (h : (coreMachine.step core (false, call)).1.state = .executing) :
    let r := coreMachine.step core (false, call)
    core.state = .executing ∧ r.1.owner = core.owner ∧ r.1.id = core.id ∧
      ∀ l ∈ r.2, ∃ stroke, l = .take stroke := by
  cases hstate : core.state with
  | executing =>
      refine ⟨rfl, ?_⟩
      rcases keyboards_executing hcall hstate with hr | ⟨-, hr⟩ | ⟨core', hr, hidle, -⟩
      · rw [hr]
        exact ⟨rfl, rfl, by simp⟩
      · rw [hr]
        refine ⟨rfl, rfl, fun l hl => ?_⟩
        exact ⟨_, List.mem_singleton.mp hl⟩
      · rw [hr] at h
        exact absurd (.inr h) hidle
  | staged =>
      have hnot : ∀ st : BridgeState, st ≠ .executing → (terminate core st).state ≠ .executing :=
        fun st hst => hst
      exfalso
      cases call with
      | next nowMs strokeNull =>
          cases strokeNull with
          | true => cases hstate.symm.trans h
          | false =>
              simp only [coreMachine, coreCall, coreOp, Bool.false_eq_true, if_false] at h
              rcases bridgeCoreNext_cases core nowMs
                with ⟨-, -, hr⟩ | ⟨-, -, hr⟩ | ⟨hx, -⟩ | ⟨hx, -⟩
              · rw [hr] at h
                exact hnot _ (by decide) h
              · rw [hr] at h
                cases hstate.symm.trans h
              · cases hstate.symm.trans hx
              · cases hstate.symm.trans hx
      | tick nowMs =>
          simp only [coreMachine, coreCall, coreOp, Bool.false_eq_true, if_false] at h
          rcases bridgeCoreTick_cases core nowMs with ⟨-, -, hr⟩ | ⟨-, hr⟩
          · rw [hr] at h
            exact hnot _ (by decide) h
          · rw [hr] at h
            cases hstate.symm.trans h
      | abort => exact hnot _ (by decide) h
      | _ => exact hcall.elim
  | _ =>
      exfalso
      have hidle : ¬core.live := by
        unfold BridgeCore.live
        rw [hstate]
        simp
      rcases keyboards_idle hcall hidle with hr | ⟨core', hr, hno, -⟩
      · rw [hr] at h
        exact hidle (.inr h)
      · rw [hr] at h
        exact hno (.inr h)

theorem Begun.went {c now : Nat} (h : Begun core ls c) (howner : core'.owner = core.owner)
    (hid : core'.id = core.id) {seen : List CoreLabel}
    (hseen : ∀ l ∈ seen, ∃ stroke, l = .take stroke) :
    Begun core' (ls ++ seen.map (now, ·)) c := by
  obtain ⟨pre, nowMs, post, rfl, hpost⟩ := h
  refine ⟨pre, nowMs, post ++ seen.map (now, ·), ?_, fun l hl => ?_⟩
  · rw [howner, hid]
    simp
  · rcases List.mem_append.mp hl with hl | hl
    · exact hpost l hl
    · obtain ⟨l', hl', rfl⟩ := List.mem_map.mp hl
      exact hseen l' hl'

/-- So does a run of its calls. -/
theorem Drives.going {es : List UsbEvent} (h : Drives CoreCall.keyboards core es core')
    (hexecuting : core'.state = .executing) :
    core.state = .executing ∧ core'.owner = core.owner ∧ core'.id = core.id ∧
      ∀ l ∈ coreLabelsOf es, ∃ stroke, l = .take stroke := by
  obtain ⟨calls, hcalls, rfl, htrace⟩ := h
  rw [← htrace]
  clear htrace
  induction calls generalizing core with
  | nil => exact ⟨hexecuting, rfl, rfl, by simp⟩
  | cons call calls ih =>
      obtain ⟨hthen, howner, hid, hseen⟩ :=
        ih (fun c hc => hcalls c (List.mem_cons_of_mem call hc)) hexecuting
      obtain ⟨hnow, howner', hid', hseen'⟩ :=
        keyboards_going (hcalls call List.mem_cons_self) hthen
      refine ⟨hnow, howner.trans howner', hid.trans hid', fun l hl => ?_⟩
      rw [List.map_cons, Machine.trace_cons] at hl
      exact (List.mem_append.mp hl).elim (hseen' l) (hseen l)

theorem Executing.driven {age : Nat → Prop} (h : Executing core ls age) {es : List UsbEvent}
    (hdrives : Drives CoreCall.keyboards core es core') (now : Nat) :
    Executing core' (ls ++ (coreLabelsOf es).map (now, ·)) age := by
  intro hexecuting
  obtain ⟨hbefore, howner, hid, hseen⟩ := hdrives.going hexecuting
  obtain ⟨c, hbegun, hage⟩ := h hbefore
  exact ⟨c, hbegun.went howner hid hseen, hage⟩

/-- A command's call of the core goes on with its job, ends it, or
confirms one. -/
theorem call_executing {age : Nat → Prop} {now : Nat} (h : Executing core ls age) (hnow : age now)
    (call : TransportCall) (nowMs : UInt32) :
    let r := coreMachine.step core (false, call.coreCall nowMs)
    Executing r.1 (ls ++ r.2.map (now, ·)) age := by
  have hsame : Executing core (ls ++ ([] : List CoreLabel).map (now, ·)) age := by
    rw [List.map_nil, List.append_nil]
    exact h
  have hended : ∀ (st : BridgeState) (ls' : List (Nat × CoreLabel)), st ≠ .executing →
      Executing (terminate core st) ls' age := fun st ls' hst hexecuting => absurd hexecuting hst
  simp only [coreMachine, coreCall, Bool.false_eq_true, if_false]
  cases call with
  | stage owner id layout mode flags utf8 length =>
      simp only [TransportCall.coreCall, coreOp]
      rcases bridgeCoreStage_cases core owner id layout mode flags (some utf8) length nowMs
          bridgeTtlMs with ⟨-, hr⟩ | ⟨-, st, -, -, hr⟩ | ⟨-, -, -, _, n, f, -, hr, -⟩
      · rw [hr]
        exact hsame
      · rw [hr]
        exact hended _ _ (by decide)
      · rw [hr]
        exact fun hexecuting => by cases hexecuting
  | confirm owner id =>
      simp only [TransportCall.coreCall, coreOp]
      rcases bridgeCoreConfirm_cases core owner id nowMs with
        ⟨st, hst, hr⟩ | ⟨-, -, -, -, hr⟩ | ⟨-, rfl, rfl, -, hr⟩
      · rw [hr]
        rcases hst with rfl | rfl | rfl <;> exact hsame
      · rw [hr]
        exact hended _ _ (by decide)
      · rw [hr]
        exact fun _ => ⟨now, ⟨ls, nowMs, [], rfl, by simp⟩, hnow⟩
  | cancel owner id =>
      simp only [TransportCall.coreCall, coreOp]
      rcases bridgeCoreCancel_cases core owner id with ⟨-, -, -, hr⟩ | ⟨-, st, hst, hr⟩
      · rw [hr]
        exact hended _ _ (by decide)
      · rw [hr]
        rcases hst with rfl | rfl | rfl <;> exact hsame
  | tick tickMs =>
      simp only [TransportCall.coreCall, coreOp]
      rcases bridgeCoreTick_cases core tickMs with ⟨-, -, hr⟩ | ⟨-, hr⟩
      · rw [hr]
        exact hended _ _ (by decide)
      · rw [hr]
        exact hsame

/-- So do the calls of a poll. -/
theorem calls_executing {age : Nat → Prop} (now : Nat) (hnow : age now) (nowMs : UInt32)
    (calls : List TransportCall) : ∀ {core : BridgeCore} {ls : List (Nat × CoreLabel)},
    Executing core ls age →
    let cs := (calls.map (TransportCall.coreCall nowMs)).map (false, ·)
    Executing (coreMachine.final core cs) (ls ++ (coreMachine.trace core cs).map (now, ·)) age := by
  induction calls with
  | nil =>
      intro core ls h
      show Executing core (ls ++ []) age
      rw [List.append_nil]
      exact h
  | cons call calls ih =>
      intro core ls h
      dsimp only
      rw [List.map_cons, List.map_cons, Machine.final_cons, Machine.trace_cons, List.map_append,
        ← List.append_assoc]
      exact ih (call_executing h hnow call nowMs)

-- ============================================================= the invariant

/-- Passes that begin at most so long after one another. -/
def Brisk (gap : Nat) (s : TimedMain) (i : UsbInput × Nat) : Prop :=
  ClockRuns s i ∧
    match s.main.pc, i.1 with
    | .top, .tudTask _ _ => i.2 ≤ s.bleAt + gap
    | _, _ => True

instance (gap : Nat) (s : TimedMain) (i : UsbInput × Nat) : Decidable (Brisk gap s i) :=
  @instDecidableAnd _ _ _ <| match s.main.pc, i.1 with
    | .top, .tudTask _ _ => Nat.decLe _ _
    | .top, .ready _ | .top, .report _ | .top, .asyncPoll _ => instDecidableTrue
    | .loop, _ | .press _, _ | .wait _, _ | .task _, _ | .recheck, _ | .release, _
    | .poll, _ => instDecidableTrue

/-- The times that the drain's variables stand for: when it was last
entered, when it was last left, and what it has noted. -/
structure DrainMarks where
  entered : Nat
  left : Nat
  noted : Nat

/-- Where they lie. -/
structure Marked (gap : Nat) (s : TimedMain) (g : DrainMarks) : Prop where
  left : s.main.lastUsbDrainMs = reading g.left
  inside : s.main.draining → g.entered = s.bleAt ∧ g.left ≤ s.bleAt
  outside : ¬s.main.draining → g.entered = s.bleAt ∧ g.left = s.usbAt ∨
    g.entered ≤ g.left ∧ g.left ≤ s.bleAt ∧ s.bleAt < g.left + 5 ∧ g.left ≤ g.entered + gap
  noted : s.main.execSinceMs ≠ 0 → s.main.execSinceMs = reading g.noted ∧
    g.noted ≤ g.entered ∧ g.entered ≤ g.noted + 2000

/-- How far the guard has got with a job that was confirmed at a time:
no drain yet, one that could note nothing, or a note. -/
def Noted (gap : Nat) (m : UsbMain) (g : DrainMarks) (c : Nat) : Prop :=
  g.entered ≤ c ∨
    (m.execSinceMs = 0 ∧ g.entered ≤ c + 2 * gap + 5 ∧ reading g.entered = 0) ∨
    (m.execSinceMs ≠ 0 ∧ g.noted ≤ c + 4 * gap + 10)

/-- The invariant. -/
def Guarded (gap : Nat) (s : TimedMain) (ls : List (Nat × CoreLabel)) : Prop :=
  ∃ g, Marked gap s g ∧
    Executing s.main.core ls fun c => c ≤ s.bleAt ∧ Noted gap s.main g c

/-- A pass lies close to the drain that was entered last. -/
theorem Marked.near {gap : Nat} {s : TimedMain} {g : DrainMarks} (h : Marked gap s g) :
    g.entered ≤ s.bleAt ∧ s.bleAt ≤ g.entered + gap + 5 := by
  by_cases hin : s.main.draining
  · have := (h.inside hin).1
    omega
  · have := h.outside hin
    omega

/-- The bound, wherever the invariant is. -/
theorem Noted.bound {gap : Nat} {s : TimedMain} {g : DrainMarks} {c : Nat}
    (h : Noted gap s.main g c) (hmarked : Marked gap s g) : s.bleAt ≤ c + 2015 + 5 * gap := by
  have hnear := hmarked.near
  rcases h with hearly | ⟨-, hfirst, -⟩ | ⟨hne, hnoted⟩
  · omega
  · omega
  · have := hmarked.noted hne
    omega

-- ================================================================== the steps

/-- What the head of a pass does to the note: it aborts and clears it,
enters the drain and takes it where the core types, or goes by. -/
theorem mainLoop_books (m : UsbMain) (nowMs : UInt32) :
    let m' := (mainLoop m nowMs).1
    let stalled := m.core.state = .executing ∧ m.execSinceMs ≠ 0 ∧ nowMs - m.execSinceMs > 2000
    (m'.pc = .poll ∧ m'.lastUsbDrainMs = nowMs ∧ m'.execSinceMs = 0 ∧
        m'.core.state ≠ .executing) ∨
    (nowMs - m.lastUsbDrainMs ≥ 5 ∧ ¬stalled ∧ m'.pc = .loop ∧ m'.core = m.core ∧
        m'.lastUsbDrainMs = m.lastUsbDrainMs ∧
        m'.execSinceMs = if m.core.state = .executing then
          if m.execSinceMs = 0 then nowMs else m.execSinceMs else 0) ∨
    (¬nowMs - m.lastUsbDrainMs ≥ 5 ∧ m'.pc = .poll ∧ m'.lastUsbDrainMs = m.lastUsbDrainMs ∧
        m'.execSinceMs = m.execSinceMs) := by
  unfold mainLoop
  dsimp only
  by_cases hgate : nowMs - m.lastUsbDrainMs ≥ 5
  · rw [if_pos hgate]
    unfold drainEnter
    by_cases hstalled : UsbMain.stalled { m with usbNowMs := nowMs, bleNowMs := nowMs }
    · rw [if_pos hstalled]
      refine .inl ⟨rfl, rfl, rfl, fun hexecuting => ?_⟩
      have haborted : Drives CoreCall.keyboards (terminate m.core .cancelled) _ _ :=
        drives_drainReturn { m with core := terminate m.core .cancelled }
      cases (haborted.going hexecuting).1
    · rw [if_neg hstalled]
      exact .inr (.inl ⟨hgate, hstalled, rfl, rfl, rfl, rfl⟩)
  · rw [if_neg hgate]
    exact .inr (.inr ⟨hgate, rfl, rfl, rfl⟩)

/-- The head of a pass. -/
theorem top_marked {gap : Nat} (hgap : gap ≤ 2 ^ 30) {s : TimedMain} {g : DrainMarks}
    (horder : s.bleAt ≤ s.usbAt) (h : Marked gap s g) (hpc : s.main.pc = .top)
    (cbs : List UsbCallback) {p : Nat} (hle : s.usbAt ≤ p) (hnext : p ≤ s.bleAt + gap) :
    let m := (mainLoop (tudTask s.main cbs).1 (reading p)).1
    ∃ g', Marked gap ⟨m, p, p⟩ g' ∧
      (m.core.state = .executing → ∀ c, Noted gap s.main g c → Noted gap m g' c) := by
  have hout : ¬s.main.draining := fun hin => hin.1 hpc
  have hplace := h.outside hout
  have hnear := h.near
  have hleft : g.left ≤ p ∧ p < g.left + 2 ^ 32 ∧ g.entered ≤ g.left := by omega
  have hsince : (reading p - reading g.left).toNat = p - g.left :=
    elapsed hleft.1 hleft.2.1
  have hfive : (5 : UInt32).toNat = 5 := rfl
  obtain ⟨hpoll, hlast, hexec, hidle⟩ | ⟨hgate, hfresh, hloop, hcore, hlast, hexec⟩ |
    ⟨hgate, hpoll, hlast, hexec⟩ := mainLoop_books (tudTask s.main cbs).1 (reading p)
  · refine ⟨⟨p, p, 0⟩, ⟨hlast, fun hin => absurd hpoll hin.2, fun _ => .inl ⟨rfl, rfl⟩,
      fun hne => absurd hexec hne⟩, fun hexecuting => absurd hexecuting hidle⟩
  · have hlater : g.left + 5 ≤ p := by
      have hkept : (tudTask s.main cbs).1.lastUsbDrainMs = reading g.left := h.left
      rw [hkept, ge_iff_le, UInt32.le_iff_toNat_le, hsince] at hgate
      omega
    have hinside : ∀ noted, (mainLoop (tudTask s.main cbs).1 (reading p)).1.draining →
        (⟨p, g.left, noted⟩ : DrainMarks).entered = p ∧
          (⟨p, g.left, noted⟩ : DrainMarks).left ≤ p :=
      fun _ _ => ⟨rfl, hleft.1⟩
    have houtside : ∀ P : Prop, ¬(mainLoop (tudTask s.main cbs).1 (reading p)).1.draining → P := by
      intro P hout
      refine absurd ?_ hout
      simp [UsbMain.draining, hloop]
    have hlast : (mainLoop (tudTask s.main cbs).1 (reading p)).1.lastUsbDrainMs = reading g.left :=
      hlast.trans h.left
    rw [tudTask_execSinceMs] at hexec hfresh
    by_cases hgoing : (tudTask s.main cbs).1.core.state = .executing
    · rw [if_pos hgoing] at hexec
      by_cases hzero : s.main.execSinceMs = 0
      · -- nothing was noted: this drain notes its time, unless the clock shows 0
        rw [if_pos hzero] at hexec
        refine ⟨⟨p, g.left, p⟩, ⟨hlast, hinside p, houtside _, fun _ => ?_⟩, fun _ c hnoted => ?_⟩
        · exact ⟨hexec, le_rfl, Nat.le_add_right _ _⟩
        · unfold Noted
          rw [hexec]
          dsimp only
          rcases hnoted with hearly | ⟨-, hfirst, hshown⟩ | ⟨hne, -⟩
          · by_cases hshows : reading p = 0
            · exact .inr (.inl ⟨hshows, by omega, hshows⟩)
            · exact .inr (.inr ⟨hshows, by omega⟩)
          · refine .inr (.inr ⟨fun hshows => ?_, by omega⟩)
            have hsame := reading_inj (s := g.entered) (t := p) (by omega) (by omega)
              (hshows.trans hshown.symm)
            omega
          · exact absurd hzero hne
      · -- what was noted stays, and is not too old yet
        rw [if_neg hzero] at hexec
        obtain ⟨hreading, hnoted, hentered⟩ := h.noted hzero
        have hyoung : ¬reading p - reading g.noted > 2000 := by
          intro hold
          rw [← hreading] at hold
          exact hfresh ⟨hgoing, hzero, hold⟩
        have htwo : (2000 : UInt32).toNat = 2000 := rfl
        rw [gt_iff_lt, UInt32.lt_iff_toNat_lt, elapsed (by omega) (by omega)] at hyoung
        refine ⟨⟨p, g.left, g.noted⟩, ⟨hlast, hinside g.noted, houtside _, fun _ => ?_⟩,
          fun _ c hbefore => ?_⟩
        · refine ⟨hexec.trans hreading, ?_, ?_⟩
          · dsimp only
            omega
          · dsimp only
            omega
        · unfold Noted
          rw [hexec]
          dsimp only
          rcases hbefore with hearly | ⟨hnone, -⟩ | ⟨-, hbound⟩
          · exact .inr (.inr ⟨hzero, by omega⟩)
          · exact absurd hnone hzero
          · exact .inr (.inr ⟨hzero, hbound⟩)
    · rw [if_neg hgoing] at hexec
      refine ⟨⟨p, g.left, 0⟩, ⟨hlast, hinside 0, houtside _, fun hne => absurd hexec hne⟩,
        fun hexecuting => ?_⟩
      rw [hcore] at hexecuting
      exact absurd hexecuting hgoing
  · have hsoon : p < g.left + 5 := by
      have hkept : (tudTask s.main cbs).1.lastUsbDrainMs = reading g.left := h.left
      rw [hkept, ge_iff_le, UInt32.le_iff_toNat_le, hsince] at hgate
      omega
    refine ⟨g, ⟨hlast.trans h.left, fun hin => absurd hpoll hin.2, fun _ => .inr ?_, ?_⟩,
      fun _ c hnoted => ?_⟩
    · dsimp only
      omega
    · rw [hexec]
      exact h.noted
    · unfold Noted at hnoted ⊢
      rw [hexec]
      exact hnoted

/-- Any other step. -/
theorem other_marked {gap : Nat} {s : TimedMain} {g : DrainMarks}
    (husb : s.main.usbNowMs = reading s.usbAt) (h : Marked gap s g) {input : UsbInput}
    (hhead : ∀ cbs nowMs, s.main.pc = .top → input ≠ .tudTask cbs nowMs) (now : Nat) :
    let s' := (timedMachine.step s (input, now)).1
    ∃ g', Marked gap s' g' ∧ s'.bleAt = s.bleAt ∧
      ∀ c, Noted gap s.main g c → Noted gap s'.main g' c := by
  have hstep : (timedMachine.step s (input, now)).1
      = ⟨(usbStep s.main input).1, (s.clocks input now).1, (s.clocks input now).2⟩ := rfl
  obtain ⟨hexec, hbooks⟩ := usbStep_books s.main hhead
  have hnoted : ∀ g' : DrainMarks, g'.entered = g.entered → g'.noted = g.noted → ∀ c,
      Noted gap s.main g c → Noted gap (usbStep s.main input).1 g' c := by
    intro g' hentered hsame c hc
    unfold Noted at hc ⊢
    rwa [hexec, hentered, hsame]
  have hsince : (usbStep s.main input).1.execSinceMs ≠ 0 →
      (usbStep s.main input).1.execSinceMs = reading g.noted ∧ g.noted ≤ g.entered ∧
        g.entered ≤ g.noted + 2000 := by
    rw [hexec]
    exact h.noted
  dsimp only
  rw [hstep]
  rcases clocks_cases s input now with
    ⟨cbs, nowMs, hpc, rfl⟩ | ⟨deadline, cbs, nowMs, hpc, rfl⟩ | ⟨-, hclocks, -, -⟩
  · exact absurd rfl (hhead cbs nowMs hpc)
  · have hclocks : s.clocks (.tudTask cbs nowMs) now = (now, s.bleAt) := by
      unfold TimedMain.clocks
      rw [hpc]
    have hmain : (usbStep s.main (.tudTask cbs nowMs)).1
        = { (tudTask s.main cbs).1 with usbNowMs := nowMs, pc := .wait deadline } := by
      unfold usbStep
      rw [hpc]
    have hwaiting : (usbStep s.main (.tudTask cbs nowMs)).1.draining := by
      rw [hmain]
      simp [UsbMain.draining]
    rcases hbooks with ⟨hsame, hlast⟩ | ⟨-, hout, -⟩
    · rw [hclocks]
      refine ⟨g, ⟨hlast.trans h.left, fun hin => h.inside (hsame.mp hin),
        fun hout => absurd hwaiting hout, hsince⟩, rfl, hnoted g rfl rfl⟩
    · exact absurd hwaiting hout
  · rw [hclocks]
    rcases hbooks with ⟨hsame, hlast⟩ | ⟨hin, hout, hlast⟩
    · refine ⟨g, ⟨hlast.trans h.left, fun hin => h.inside (hsame.mp hin),
        fun hout => h.outside fun hin => hout (hsame.mpr hin), hsince⟩, rfl, hnoted g rfl rfl⟩
    · -- the drain is left
      refine ⟨⟨g.entered, s.usbAt, g.noted⟩, ⟨hlast.trans husb, fun hin => absurd hin hout,
        fun _ => .inl ⟨(h.inside hin).1, rfl⟩, hsince⟩, rfl, hnoted _ rfl rfl⟩

theorem guarded_step {gap : Nat} (hgap : gap ≤ 2 ^ 30) {s : TimedMain} (htimely : Timely s ls)
    (h : Guarded gap s ls) {i : UsbInput × Nat} (hi : Brisk gap s i) :
    Guarded gap (timedMachine.step s i).1 (ls ++ timedLabels (timedMachine.step s i).2) := by
  obtain ⟨g, hmarked, hexecuting⟩ := h
  obtain ⟨input, now⟩ := i
  have hlabels : timedLabels (timedMachine.step s (input, now)).2
      = (coreLabelsOf (usbStep s.main input).2).map ((s.clocks input now).2, ·) :=
    timedLabels_at _ _
  rw [hlabels]
  by_cases hhead : ∃ cbs nowMs, s.main.pc = .top ∧ input = .tudTask cbs nowMs
  · obtain ⟨cbs, nowMs, hpc, rfl⟩ := hhead
    obtain ⟨hclock, hbrisk⟩ := hi
    obtain ⟨rfl, hle, -⟩ : nowMs = reading now ∧ s.usbAt ≤ now ∧
        now + bridgeTtlMs.toNat < s.bleAt + 2 ^ 32 := by
      unfold ClockRuns at hclock
      rwa [hpc] at hclock
    have hnext : now ≤ s.bleAt + gap := by rwa [hpc] at hbrisk
    have hstep : (timedMachine.step s (.tudTask cbs (reading now), now)).1
        = ⟨(mainLoop (tudTask s.main cbs).1 (reading now)).1, now, now⟩ := by
      show TimedMain.mk (usbStep s.main _).1 _ _ = _
      unfold TimedMain.clocks usbStep
      rw [hpc]
    have hdrives := usbStep_drives s.main (i := .tudTask cbs (reading now)) (by simp)
    have hcore : (usbStep s.main (.tudTask cbs (reading now))).1.core
        = (mainLoop (tudTask s.main cbs).1 (reading now)).1.core :=
      congrArg (fun s : TimedMain => s.main.core) hstep
    obtain ⟨g', hmarked', hnoted⟩ := top_marked hgap htimely.order hmarked hpc cbs hle hnext
    have horder := htimely.order
    rw [hstep]
    refine ⟨g', hmarked', fun hgoing => ?_⟩
    have hdriven := hexecuting.driven hdrives (s.clocks (.tudTask cbs (reading now)) now).2
    rw [hcore] at hdriven
    obtain ⟨c, hbegun, hle', hc⟩ := hdriven hgoing
    exact ⟨c, hbegun, by dsimp only; omega, hnoted hgoing c hc⟩
  · have hhead : ∀ cbs nowMs, s.main.pc = .top → input ≠ .tudTask cbs nowMs :=
      fun cbs nowMs hpc heq => hhead ⟨cbs, nowMs, hpc, heq⟩
    obtain ⟨g', hmarked', hble, hnoted⟩ := other_marked htimely.usb hmarked hhead now
    refine ⟨g', hmarked', ?_⟩
    rw [hble]
    have hkept : Executing s.main.core ls fun c => c ≤ s.bleAt ∧
        Noted gap (timedMachine.step s (input, now)).1.main g' c :=
      hexecuting.mono fun c hc => ⟨hc.1, hnoted c hc.2⟩
    by_cases hpoll : ∃ calls, input = .asyncPoll calls
    · obtain ⟨calls, rfl⟩ := hpoll
      have hclocks : s.clocks (.asyncPoll calls) now = (s.usbAt, s.bleAt) := by
        unfold TimedMain.clocks
        split
        next hinput => cases hinput
        next hinput => cases hinput
        next => rfl
      rw [hclocks]
      by_cases hpc : s.main.pc = .poll
      · have hmain : usbStep s.main (.asyncPoll calls)
            = ({ (s.main.callCore (calls.map (TransportCall.coreCall s.main.bleNowMs))).1 with
                  pc := .top },
                (s.main.callCore (calls.map (TransportCall.coreCall s.main.bleNowMs))).2) := by
          unfold usbStep
          rw [hpc]
        have hcore : (timedMachine.step s (.asyncPoll calls, now)).1.main.core
            = (usbStep s.main (.asyncPoll calls)).1.core := rfl
        have hnear := hmarked'.near.1
        rw [hble] at hnear
        have hcalls := calls_executing s.bleAt ⟨le_rfl, .inl hnear⟩ s.main.bleNowMs calls
          hkept
        have hseen : coreLabelsOf
            (s.main.callCore (calls.map (TransportCall.coreCall s.main.bleNowMs))).2
            = coreMachine.trace s.main.core
              ((calls.map (TransportCall.coreCall s.main.bleNowMs)).map (false, ·)) :=
          coreLabelsOf_core _
        rw [hcore, hmain, hseen]
        exact hcalls
      · have hmain : usbStep s.main (.asyncPoll calls) = (s.main, []) := usbStep_skip hpc calls
        have hcore : (timedMachine.step s (.asyncPoll calls, now)).1.main.core
            = (usbStep s.main (.asyncPoll calls)).1.core := rfl
        rw [hcore, hmain]
        exact (List.append_nil ls).symm ▸ hkept
    · exact hkept.driven (usbStep_drives s.main fun calls heq => hpoll ⟨calls, heq⟩) _

-- ================================================================= the runs

theorem guarded_run {gap : Nat} (hgap : gap ≤ 2 ^ 30) {is : List (UsbInput × Nat)}
    (hbrisk : timedMachine.StepsMeet (Brisk gap) timedMainInit is) :
    let s := timedMachine.final timedMainInit is
    let ls := timedLabels (timedMachine.trace timedMainInit is)
    Timely s ls ∧ Guarded gap s ls := by
  refine timedMachine.run_inv (P := fun s h => Timely s (timedLabels h) ∧
    Guarded gap s (timedLabels h)) ?_ is timedMainInit [] ?_ hbrisk
  · intro s h i hP hi
    rw [timedLabels_append]
    exact ⟨timely_step hP.1 hi.1, guarded_step hgap hP.1 hP.2 hi⟩
  · refine ⟨@timely_run [] trivial, ⟨0, 0, 0⟩, ?_, fun hexecuting => by cases hexecuting⟩
    exact ⟨rfl, fun hin => absurd rfl hin.1, fun _ => .inl ⟨rfl, rfl⟩, fun hne => absurd rfl hne⟩

/-- BUSY does not last. In every run of the loop whose passes begin at most
`gap` ms after one another, whatever the endpoint answers and through any
wrap of the clock, a job that is EXECUTING was confirmed in a pass that
began at most `2015 + 5 * gap` ms before this one, and nothing but its
strokes was seen of the core since. -/
theorem busy_bounded {gap : Nat} (hgap : gap ≤ 2 ^ 30) {is : List (UsbInput × Nat)}
    (hbrisk : timedMachine.StepsMeet (Brisk gap) timedMainInit is) :
    let s := timedMachine.final timedMainInit is
    s.main.core.state = .executing →
    ∃ c, Begun s.main.core (timedLabels (timedMachine.trace timedMainInit is)) c ∧
      c ≤ s.bleAt ∧ s.bleAt ≤ c + 2015 + 5 * gap := by
  intro s hexecuting
  obtain ⟨-, g, hmarked, hjob⟩ := guarded_run hgap hbrisk
  obtain ⟨c, hbegun, hle, hnoted⟩ := hjob hexecuting
  exact ⟨c, hbegun, hle, hnoted.bound hmarked⟩

/-- A key that is confirmed for an endpoint that takes nothing. -/
def deafRun : List (UsbInput × Nat) :=
  [(.tudTask [.mount] 5, 5), (.ready true, 0),
    (.asyncPoll [.stage 7 1 bridgeLayoutUs bridgeModePassword 0 [0x61] 1, .confirm 7 1], 0),
    (.tudTask [] 10, 10), (.ready false, 0), (.asyncPoll [], 0)]

theorem busy_bounded_deaf :
    let s := timedMachine.final timedMainInit deafRun
    ∃ c, Begun s.main.core (timedLabels (timedMachine.trace timedMainInit deafRun)) c ∧
      c ≤ s.bleAt ∧ s.bleAt ≤ c + 2015 + 5 * 10 :=
  @busy_bounded 10 (by decide) deafRun (by decide +kernel) (by decide +kernel)

end PicoBridge
